import Irc.Proofs.SortedMap
import Irc.Server.Support
import Irc.Session.Registration
/-! What a server has announced depends on the tokens of its 005 lines and their order, and not on
how they are spread over the lines. Of the tokens that mention a key the last one counts, so that a
line which is repeated changes nothing. -/
namespace Irc.Support

/-- What a token says of a key: that it is announced, with or without a value, or that it is taken
back. -/
inductive Says : String → String → Option (Option String) → Prop
  | value {key : String} (value : String) (noDash : key.toList.head? ≠ some '-')
      (noValue : '=' ∉ key.toList) : Says (key ++ "=" ++ value) key (some (some value))
  | bare {key : String} (nonempty : key ≠ "") (noDash : key.toList.head? ≠ some '-')
      (noValue : '=' ∉ key.toList) : Says key key (some none)
  | takenBack (key : String) : Says ("-" ++ key) key none

/-- Whether a token says anything of a key, in any ASCII case. -/
def Mentions (token key : String) : Prop :=
  ∃ written announced, Says token written announced ∧ Text.upper written = Text.upper key

/-- The empty token says nothing. -/
theorem exists_says {token : String} (h : token ≠ "") : ∃ key announced, Says token key announced := by
  by_cases hDash : token.toList.head? = some '-'
  · obtain ⟨key, hKey⟩ := List.head?_eq_some_iff.mp hDash
    have hToken : token = "-" ++ String.ofList key := String.toList_injective (by simp [hKey])
    subst hToken
    exact ⟨_, _, .takenBack (String.ofList key)⟩
  cases hCut : Text.cut '=' token.toList with
  | none => exact ⟨token, some none, .bare h hDash (Text.cut_eq_none_iff.mp hCut)⟩
  | some parts =>
      obtain ⟨hParts, hKey⟩ := Text.cut_eq_some_iff.mp hCut
      have hToken : token = String.ofList parts.1 ++ "=" ++ String.ofList parts.2 :=
        String.toList_injective (by simp [hParts])
      have hHead : (String.ofList parts.1).toList.head? ≠ some '-' := by
        intro hFirst
        apply hDash
        rw [hParts, List.head?_append, ← String.toList_ofList (l := parts.1), hFirst]
        rfl
      have hPlain : '=' ∉ (String.ofList parts.1).toList := by simpa using hKey
      subst hToken
      exact ⟨_, _, .value (String.ofList parts.2) hHead hPlain⟩

section Value

variable {key : String} (value : String)

theorem value_ne_empty : key ++ "=" ++ value ≠ "" := by
  intro hNone
  simpa using congrArg String.toList hNone

/-- A token with a value is cut behind its key, even if there are more such signs in the value. -/
theorem cut_value (noValue : '=' ∉ key.toList) :
    Text.cut '=' (key ++ "=" ++ value).toList = some (key.toList, value.toList) :=
  Text.cut_eq_some_iff.mpr ⟨by simp, noValue⟩

theorem head?_value (noDash : key.toList.head? ≠ some '-') :
    (key ++ "=" ++ value).toList.head? ≠ some '-' := by
  have hList : (key ++ "=" ++ value).toList = key.toList ++ '=' :: value.toList := by simp
  rw [hList]
  cases hKey : key.toList with
  | nil => simp
  | cons c rest => simpa [hKey] using noDash

end Value

theorem Says.ne_empty {token key : String} {announced : Option (Option String)}
    (h : Says token key announced) : token ≠ "" := by
  cases h with
  | value value _ _ => exact value_ne_empty value
  | bare nonempty _ _ => exact nonempty
  | takenBack key =>
      intro hNone
      simpa using congrArg String.toList hNone

/-- A token that takes nothing back sets its key, with or without a value. -/
theorem absorbToken_of_head {token : String} (hNonempty : token ≠ "")
    (hDash : token.toList.head? ≠ some '-') (s : Support) :
    s.absorbToken token =
      match Text.cut '=' token.toList with
      | some (key, value) =>
        ⟨s.tokens.insert (Text.upper (String.ofList key)) (some (String.ofList value))⟩
      | none => ⟨s.tokens.insert (Text.upper token) none⟩ := by
  unfold absorbToken
  split
  case h_1 hNone => exact absurd (String.toList_eq_nil_iff.mp hNone) hNonempty
  case h_2 hFirst => exact absurd (by rw [hFirst]; rfl) hDash
  case h_3 => rfl

/-- A token settles the key that it is about, and no other. -/
theorem get?_absorbToken {token key : String} {announced : Option (Option String)}
    (h : Says token key announced) (s : Support) (k : String) :
    (s.absorbToken token).tokens.get? k =
      if k = Text.upper key then announced else s.tokens.get? k := by
  cases h with
  | value value noDash noValue =>
      rw [absorbToken_of_head (value_ne_empty value) (head?_value value noDash), cut_value value noValue]
      simp only [String.ofList_toList, SortedMap.get?_insert]
  | bare nonempty noDash noValue =>
      rw [absorbToken_of_head nonempty noDash, Text.cut_eq_none_iff.mpr noValue]
      exact SortedMap.get?_insert ..
  | takenBack key =>
      have hList : ("-" ++ key).toList = '-' :: key.toList := by simp
      have hToken : s.absorbToken ("-" ++ key) = ⟨s.tokens.erase (Text.upper key)⟩ := by
        rw [absorbToken, hList]
        simp only [String.ofList_toList]
      rw [hToken]
      exact SortedMap.get?_erase ..

def keyOf (token : String) : String :=
  String.ofList <| match token.toList with
    | '-' :: key => key
    | chars => ((Text.cut '=' chars).map Prod.fst).getD chars

theorem keyOf_of_head {token : String} (hDash : token.toList.head? ≠ some '-') :
    keyOf token =
      String.ofList (((Text.cut '=' token.toList).map Prod.fst).getD token.toList) := by
  unfold keyOf
  split
  case h_1 hFirst => exact absurd (by rw [hFirst]; rfl) hDash
  case h_2 => rfl

/-- A token speaks of one key only. -/
theorem Says.eq_keyOf {token key : String} {announced : Option (Option String)}
    (h : Says token key announced) : key = keyOf token := by
  cases h with
  | value value noDash noValue =>
      rw [keyOf_of_head (head?_value value noDash), cut_value value noValue]
      exact String.ofList_toList.symm
  | bare nonempty noDash noValue =>
      rw [keyOf_of_head noDash, Text.cut_eq_none_iff.mpr noValue]
      exact String.ofList_toList.symm
  | takenBack key => simp [keyOf]

/-- Whether a token mentions a key can be read off the token. -/
theorem mentions_iff {token key : String} :
    Mentions token key ↔ token ≠ "" ∧ Text.upper (keyOf token) = Text.upper key := by
  constructor
  · rintro ⟨written, announced, hSays, hKey⟩
    exact ⟨hSays.ne_empty, hSays.eq_keyOf ▸ hKey⟩
  · rintro ⟨hNonempty, hKey⟩
    obtain ⟨written, announced, hSays⟩ := exists_says hNonempty
    exact ⟨written, announced, hSays, hSays.eq_keyOf ▸ hKey⟩

instance (token key : String) : Decidable (Mentions token key) :=
  decidable_of_iff _ mentions_iff.symm

/-- A token leaves what it does not mention. -/
theorem get?_absorbToken_of_not_mentions {token key : String} (h : ¬Mentions token key)
    (s : Support) : (s.absorbToken token).get? key = s.get? key := by
  by_cases hEmpty : token = ""
  · subst hEmpty
    rfl
  · obtain ⟨written, announced, hSays⟩ := exists_says hEmpty
    have hOther : Text.upper key ≠ Text.upper written := fun hSame =>
      h ⟨written, announced, hSays, hSame.symm⟩
    rw [get?, get?_absorbToken hSays, if_neg hOther]
    rfl

/-- Tokens that do not mention a key leave it as it was, however many they are. -/
theorem get?_foldl_of_not_mentions {tokens : List String} {key : String}
    (h : ∀ token ∈ tokens, ¬Mentions token key) (s : Support) :
    (tokens.foldl absorbToken s).get? key = s.get? key := by
  induction tokens generalizing s with
  | nil => rfl
  | cons token rest ih =>
      obtain ⟨hHere, hRest⟩ := List.forall_mem_cons.mp h
      rw [List.foldl_cons, ih hRest, get?_absorbToken_of_not_mentions hHere]

/-- The last token that mentions a key decides, whatever was said before it. -/
theorem get?_foldl_of_last {before after : List String} {token written key : String}
    {announced : Option (Option String)} (hSays : Says token written announced)
    (hKey : Text.upper written = Text.upper key) (hLast : ∀ later ∈ after, ¬Mentions later key)
    (s : Support) : ((before ++ token :: after).foldl absorbToken s).get? key = announced := by
  rw [List.foldl_append, List.foldl_cons, get?_foldl_of_not_mentions hLast, get?,
    get?_absorbToken hSays, if_pos hKey.symm]

/-- Tokens either say what becomes of a key, whatever was announced before, or leave it alone. -/
theorem settled_or_kept (tokens : List String) (k : String) :
    (∃ announced, ∀ s : Support, (tokens.foldl absorbToken s).tokens.get? k = announced) ∨
      ∀ s : Support, (tokens.foldl absorbToken s).tokens.get? k = s.tokens.get? k := by
  induction tokens with
  | nil => exact .inr fun _ => rfl
  | cons token rest ih =>
      -- What later tokens say of the key hides what this one says.
      rcases ih with ⟨announced, hSettled⟩ | hKept
      · exact .inl ⟨announced, fun s => hSettled _⟩
      by_cases hEmpty : token = ""
      · subst hEmpty
        exact .inr hKept
      obtain ⟨key, announced, hSays⟩ := exists_says hEmpty
      by_cases hKey : k = Text.upper key
      · refine .inl ⟨announced, fun s => ?_⟩
        rw [List.foldl_cons, hKept, get?_absorbToken hSays, if_pos hKey]
      · refine .inr fun s => ?_
        rw [List.foldl_cons, hKept, get?_absorbToken hSays, if_neg hKey]

/-- A line that is repeated changes nothing. -/
theorem absorb_absorb (s : Support) (params : List String) :
    (s.absorb params).absorb params = s.absorb params := by
  have hTokens : ((s.absorb params).absorb params).tokens = (s.absorb params).tokens := by
    apply SortedMap.ext_get?
    intro k
    rcases settled_or_kept (tokensOf params) k with ⟨announced, hSettled⟩ | hKept
    · exact (hSettled _).trans (hSettled s).symm
    · exact hKept _
  exact congrArg Support.mk hTokens

/-- A 005 line as servers send it: tokens between our nickname and, in most of them, a text for
people. -/
structure Announcement where
  nick : String
  tokens : List String
  text : Option String
  spaceless : ∀ token ∈ tokens, ' ' ∉ token.toList
  spaced : ∀ t ∈ text, ' ' ∈ t.toList

def Announcement.params (a : Announcement) : List String := a.nick :: (a.tokens ++ a.text.toList)

/-- The tokens of a line are between our nickname and the words at the end. -/
theorem tokensOf_params (a : Announcement) : tokensOf a.params = a.tokens := by
  obtain ⟨nick, tokens, text, spaceless, spaced⟩ := a
  cases text with
  | none =>
      cases hLast : tokens.getLast? with
      | none =>
          have hNone : tokens = [] := List.getLast?_eq_none_iff.mp hLast
          subst hNone
          rfl
      | some last =>
          have hPlain : ' ' ∉ last.toList := spaceless last (List.mem_of_getLast? hLast)
          simp [tokensOf, Announcement.params, hLast, hPlain]
  | some t =>
      have hText : ' ' ∈ t.toList := spaced t rfl
      simp [tokensOf, Announcement.params, hText]

def absorbAll (s : Support) (lines : List Announcement) : Support :=
  lines.foldl (fun s line => s.absorb line.params) s

/-- Any number of lines do what all their tokens do in a row. -/
theorem absorbAll_eq (s : Support) (lines : List Announcement) :
    s.absorbAll lines = (lines.flatMap Announcement.tokens).foldl absorbToken s := by
  induction lines generalizing s with
  | nil => rfl
  | cons line rest ih =>
      have hLine : s.absorb line.params = line.tokens.foldl absorbToken s := by
        rw [absorb, tokensOf_params]
      have hLines : s.absorbAll (line :: rest) = (s.absorb line.params).absorbAll rest := rfl
      rw [hLines, ih, hLine, List.flatMap_cons, List.foldl_append]

/-- A session that hears 005 lines gathers what is in them. -/
theorem support_supportLine (s : Session) (lines : List Line) :
    (lines.foldl (fun s line => (s.supportLine line).session) s).network.support =
      lines.foldl (fun support line => support.absorb line.params) s.network.support := by
  induction lines generalizing s with
  | nil => rfl
  | cons line rest ih => exact ih _

/-- However tokens are spread over 005 lines, the same is announced. Each key has what the last
token says that mentions it, and keys that no token mentions have what they had. Any line, of this
kind or not, may come twice. -/
theorem tokens_alone_count (s : Support) :
    (∀ lines others : List Announcement,
      lines.flatMap Announcement.tokens = others.flatMap Announcement.tokens →
      s.absorbAll lines = s.absorbAll others) ∧
    (∀ token : String, token ≠ "" → ∃ key announced, Says token key announced) ∧
    (∀ (lines : List Announcement) (before after : List String) (token written key : String)
        (announced : Option (Option String)),
      lines.flatMap Announcement.tokens = before ++ token :: after →
      Says token written announced → Text.upper written = Text.upper key →
      (∀ later ∈ after, ¬Mentions later key) → (s.absorbAll lines).get? key = announced) ∧
    (∀ (lines : List Announcement) (key : String),
      (∀ token ∈ lines.flatMap Announcement.tokens, ¬Mentions token key) →
      (s.absorbAll lines).get? key = s.get? key) ∧
    (∀ params : List String, (s.absorb params).absorb params = s.absorb params) ∧
    ∀ (session : Session) (lines : List Line), session.network.support = s →
      (lines.foldl (fun session line => (session.supportLine line).session) session).network.support
        = lines.foldl (fun s line => s.absorb line.params) s := by
  refine ⟨?cutting, fun token => exists_says, ?last, ?kept, s.absorb_absorb, ?session⟩
  case cutting =>
    intro lines others hSame
    rw [absorbAll_eq, absorbAll_eq, hSame]
  case last =>
    intro lines before after token written key announced hTokens hSays hKey hLast
    rw [absorbAll_eq, hTokens]
    exact get?_foldl_of_last hSays hKey hLast s
  case kept =>
    intro lines key hNone
    rw [absorbAll_eq]
    exact get?_foldl_of_not_mentions hNone s
  case session =>
    rintro session lines rfl
    exact support_supportLine session lines

/-- Two ways to cut the same tokens into lines, one of which takes a key back. -/
theorem tokens_alone_count_of_exceptions :
    let first : Announcement :=
      ⟨"me", ["EXCEPTS=e", "LISTMODE=997"], some "are supported", by decide, by simp⟩
    let second : Announcement := ⟨"me", ["-excepts", "INVEX"], none, by decide, nofun⟩
    let whole : Announcement :=
      ⟨"me", ["EXCEPTS=e", "LISTMODE=997", "-excepts", "INVEX"], some "by this server", by decide,
        by simp⟩
    empty.absorbAll [first, second] = empty.absorbAll [whole] ∧
      (empty.absorbAll [first, second]).get? "Excepts" = none ∧
      (empty.absorbAll [first, second]).get? "listmode" = some (some "997") ∧
      (empty.absorbAll [first, second]).get? "PREFIX" = none := by
  intro first second whole
  obtain ⟨hCutting, -, hLast, hKept, -⟩ := tokens_alone_count empty
  refine ⟨hCutting _ _ rfl, ?_, ?_, ?_⟩
  · exact hLast [first, second] ["EXCEPTS=e", "LISTMODE=997"] ["INVEX"] "-excepts" "excepts"
      "Excepts" none rfl (.takenBack "excepts") (by decide) (by decide)
  · exact hLast [first, second] ["EXCEPTS=e"] ["-excepts", "INVEX"] "LISTMODE=997" "LISTMODE"
      "listmode" (some (some "997")) rfl (@Says.value "LISTMODE" "997" (by decide) (by decide))
      (by decide) (by decide)
  · exact hKept [first, second] "PREFIX" (by decide)

end Irc.Support
