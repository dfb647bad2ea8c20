import Mathlib.Data.List.DropRight
import Mathlib.Data.List.TakeDrop
import Mathlib.Data.List.TakeWhile
import Constructicon.Token

/-! The grammar of token lines. Without the blanks at its ends a line holds a token unless it is
empty or begins with a number sign or a colon; the type is the longest beginning without colons and
blanks, the value what follows it without one colon. Places of marks in the line do not come into
it: a line cut at its first colon or blank, whichever comes first, gives the same. A token that was
read is read again from its own line. -/
namespace Constructicon

namespace Text

/-- What is left of a text without the blanks at its ends. -/
structure Trims (text inner : List Char) : Prop where
  within : ∃ before after, text = before ++ inner ++ after ∧
    (∀ c ∈ before, isBlank c = true) ∧ ∀ c ∈ after, isBlank c = true
  first : ∀ c ∈ inner.head?, isBlank c = false
  last : ∀ c ∈ inner.getLast?, isBlank c = false

variable {text inner : List Char}

theorem dropWhile_eq_self {test : Char → Bool} (first : ∀ c ∈ text.head?, test c = false) :
    text.dropWhile test = text := by
  cases text with
  | nil => rfl
  | cons c rest => exact List.dropWhile_cons_of_neg (by simp [first c rfl])

theorem head?_dropWhile {test : Char → Bool} {c : Char} (first : c ∈ (text.dropWhile test).head?) :
    test c = false := by
  have known := List.head?_dropWhile_not test text
  rw [Option.mem_def.mp first] at known
  simpa using known

theorem Trims.trim_eq (trims : Trims text inner) : trim text = inner := by
  obtain ⟨⟨before, after, rfl, blankBefore, blankAfter⟩, first, last⟩ := trims
  rw [trim, trimStart, List.append_assoc, List.dropWhile_append_of_pos blankBefore]
  cases inner with
  | nil =>
    rw [List.nil_append, List.dropWhile_eq_nil_iff.mpr blankAfter]
    rfl
  | cons c rest =>
    have start : (c :: rest ++ after).dropWhile isBlank = c :: rest ++ after :=
      dropWhile_eq_self (by simpa using first c rfl)
    have back : (c :: rest).reverse.dropWhile isBlank = (c :: rest).reverse := by
      refine dropWhile_eq_self fun final => ?_
      rw [List.head?_reverse]
      exact last final
    rw [start, List.reverse_append, List.dropWhile_append_of_pos (by simpa using blankAfter), back,
      List.reverse_reverse]

theorem trims_trim (text : List Char) : Trims text (trim text) := by
  have start : text.takeWhile isBlank ++ trimStart text = text := List.takeWhile_append_dropWhile
  have finish : trim text ++ (trimStart text).rtakeWhile isBlank = trimStart text :=
    List.rdropWhile_append_rtakeWhile ..
  constructor
  case within =>
    refine ⟨text.takeWhile isBlank, (trimStart text).rtakeWhile isBlank, ?_,
      fun c => List.mem_takeWhile_imp, fun c => List.mem_rtakeWhile_imp⟩
    rw [List.append_assoc, finish, start]
  case first =>
    intro c first
    have leads : c ∈ (trimStart text).head? := by
      rw [← finish, List.head?_append, Option.mem_def.mp first]
      rfl
    exact head?_dropWhile leads
  case last =>
    intro c last
    rw [trim, List.getLast?_reverse] at last
    exact head?_dropWhile last

/-- A text leaves one text without the blanks at its ends. -/
theorem trims_iff : Trims text inner ↔ trim text = inner :=
  ⟨Trims.trim_eq, fun same => same ▸ trims_trim text⟩

theorem Trims.subset (trims : Trims text inner) : inner ⊆ text := by
  obtain ⟨before, after, rfl, _⟩ := trims.within
  exact fun c member => by simp [member]

end Text

namespace Token
open Text

/-- A text without the colon it may begin with. -/
def pastColon : List Char → List Char
  | ':' :: after => after
  | text => text

/-- No character of the text ends a type. -/
def Solid (text : List Char) : Prop :=
  ∀ c ∈ text, c ≠ ':' ∧ isBlank c = false

/-- How a trimmed line spells a token. -/
structure Spells (text : List Char) (token : Token) : Prop where
  opens : ∃ first rest, text = first :: rest ∧ first ≠ '#' ∧ first ≠ ':'
  typed : token.elementType.toList <+: text
  solid : Solid token.elementType.toList
  longest : ∀ longer, longer <+: text → Solid longer → longer <+: token.elementType.toList
  value : Trims (pastColon (text.drop token.elementType.toList.length)) token.value.toList

/-- A line cut at the places of its first colon and its first blank. -/
def cut (text : List Char) : List Char × List Char :=
  match text.findIdx? (· = ':'), text.findIdx? isBlank with
  | some colon, some blank =>
    if colon < blank then (text.take colon, text.drop (colon + 1))
    else (text.take blank, text.drop blank)
  | some colon, none => (text.take colon, text.drop (colon + 1))
  | none, some blank => (text.take blank, text.drop blank)
  | none, none => (text, [])

/-- The token of a line by the places of its marks, with each part trimmed by itself. -/
def ofCut (line : String) : Option Token :=
  let text := trim line.toList
  if text = [] ∨ text.head? = some '#' then none
  else if trim (cut text).1 = [] then none
  else some ⟨String.ofList (trim (cut text).1), String.ofList (trim (cut text).2)⟩

variable {line : String} {text : List Char} {token : Token}

theorem pastColon_of_ne (none : ∀ after, text ≠ ':' :: after) : pastColon text = text := by
  unfold pastColon
  split
  · exact absurd rfl (none _)
  · rfl

theorem pastColon_subset (text : List Char) : pastColon text ⊆ text := by
  unfold pastColon
  split
  · exact List.subset_cons_self _ _
  · exact List.Subset.refl _

theorem endsType_eq_false {c : Char} : endsType c = false ↔ c ≠ ':' ∧ isBlank c = false := by
  simp [endsType]

theorem isBlank_colon : isBlank ':' = false := by decide

theorem solid_takeWhile (text : List Char) : Solid (text.takeWhile fun c => !endsType c) := by
  intro c member
  have passed := List.all_eq_true.mp List.all_takeWhile c member
  exact endsType_eq_false.mp (by simpa using passed)

theorem Solid.prefix_takeWhile {longer : List Char} (solid : Solid longer)
    (begins : longer <+: text) : longer <+: text.takeWhile fun c => !endsType c := by
  obtain ⟨more, rfl⟩ := begins
  have free : ∀ c ∈ longer, (!endsType c) = true := by
    intro c member
    simp [endsType_eq_false.mpr (solid c member)]
  rw [List.takeWhile_append_of_pos free]
  exact List.prefix_append _ _

/-- A text without blanks is trimmed. -/
theorem Solid.trims (solid : Solid text) : Trims text text :=
  ⟨⟨[], [], by simp, by simp, by simp⟩, fun c first => (solid c (List.mem_of_mem_head? first)).2,
    fun c last => (solid c (List.mem_of_mem_getLast? last)).2⟩

theorem ofLine_eq (line : String) : ofLine line =
    if (trim line.toList).takeWhile (fun c => !endsType c) = [] ∨
      (trim line.toList).head? = some '#' then none
    else some ⟨String.ofList ((trim line.toList).takeWhile fun c => !endsType c),
      String.ofList (trim (pastColon ((trim line.toList).dropWhile fun c => !endsType c)))⟩ := by
  simp only [ofLine, List.span_eq_takeWhile_dropWhile]
  generalize trim line.toList = text
  generalize text.dropWhile (fun c => !endsType c) = rest
  split
  · rfl
  · split
    · rfl
    · rename_i none
      rw [pastColon_of_ne none]

theorem opens_iff (trims : Trims line.toList text) :
    (∃ first rest, text = first :: rest ∧ first ≠ '#' ∧ first ≠ ':') ↔
      ¬ ((text.takeWhile fun c => !endsType c) = [] ∨ text.head? = some '#') := by
  cases text with
  | nil => simp
  | cons first rest =>
    have solid : endsType first = false ↔ first ≠ ':' := by
      rw [endsType_eq_false, and_iff_left (trims.first first rfl)]
    rw [List.takeWhile_cons]
    by_cases colon : first = ':'
    · simp [colon, endsType]
    · simp [solid.mpr colon, colon]

/-- The parts of a line by the places of its marks are the longest type and what follows it. -/
theorem cut_eq (text : List Char) : cut text =
    (text.takeWhile fun c => !endsType c, pastColon (text.dropWhile fun c => !endsType c)) := by
  induction text with
  | nil => rfl
  | cons c rest ih =>
    by_cases colon : c = ':'
    · subst colon
      have later : (':' :: rest).findIdx? isBlank = (rest.findIdx? isBlank).map (· + 1) := by
        rw [List.findIdx?_cons, isBlank_colon]
        rfl
      rw [cut, later, List.findIdx?_cons]
      cases rest.findIdx? isBlank <;> simp [endsType, pastColon]
    · by_cases blank : isBlank c = true
      · have first : (c :: rest).findIdx? isBlank = some 0 := by
          rw [List.findIdx?_cons, if_pos blank]
        have other : pastColon (c :: rest) = c :: rest :=
          pastColon_of_ne fun after same => colon (List.cons.inj same).1
        rw [cut, first, List.findIdx?_cons]
        cases rest.findIdx? (· = ':') <;> simp [endsType, blank, colon, other]
      · have solid : endsType c = false := endsType_eq_false.mpr ⟨colon, by simpa using blank⟩
        -- Behind such a character both places are one further on.
        have step : cut (c :: rest) = (c :: (cut rest).1, (cut rest).2) := by
          rw [cut, cut, List.findIdx?_cons, List.findIdx?_cons]
          cases rest.findIdx? (· = ':') <;> cases rest.findIdx? isBlank <;>
            simp [colon, blank]
          split <;> simp
        rw [step, ih]
        simp [solid]

theorem ofLine_eq_ofCut (line : String) : ofLine line = ofCut line := by
  have solid := solid_takeWhile (trim line.toList)
  rw [ofLine_eq, ofCut, cut_eq]
  simp only [solid.trims.trim_eq]
  by_cases empty : trim line.toList = []
  · simp [empty]
  · by_cases sign : (trim line.toList).head? = some '#' <;> simp [empty, sign]

theorem spells_split {rest type value : List Char} (opens : ∃ first after, text = first :: after ∧
    first ≠ '#' ∧ first ≠ ':') (split : text = type ++ rest)
    (same : type = text.takeWhile fun c => !endsType c) (trims : Trims (pastColon rest) value) :
    Spells text ⟨String.ofList type, String.ofList value⟩ := by
  constructor
  case opens => exact opens
  case typed => simp [split]
  case solid => simpa [same] using solid_takeWhile text
  case longest =>
    intro longer begins solid
    simpa [same] using solid.prefix_takeWhile begins
  case value => simpa [split] using trims

theorem Spells.unique {other : Token} (spells : Spells text token) (also : Spells text other) :
    token = other := by
  have types : token.elementType.toList = other.elementType.toList := by
    have below := also.longest _ spells.typed spells.solid
    have above := spells.longest _ also.typed also.solid
    exact below.eq_of_length_le above.length_le
  have value := spells.value
  rw [types] at value
  have values : token.value.toList = other.value.toList :=
    value.trim_eq.symm.trans also.value.trim_eq
  obtain ⟨type, text⟩ := token
  rw [Token.mk.injEq]
  exact ⟨String.toList_inj.mp types, String.toList_inj.mp values⟩

theorem exists_ofLine (trims : Trims line.toList text)
    (opens : ∃ first rest, text = first :: rest ∧ first ≠ '#' ∧ first ≠ ':') :
    ∃ token, ofLine line = some token ∧ Spells text token := by
  have kept := (opens_iff trims).mp opens
  refine ⟨_, ?_, spells_split opens List.takeWhile_append_dropWhile.symm rfl (trims_trim _)⟩
  rw [ofLine_eq, trims.trim_eq, if_neg kept]

/-- A line holds the token that it spells without the blanks at its ends. -/
theorem ofLine_eq_some (trims : Trims line.toList text) :
    ofLine line = some token ↔ Spells text token := by
  constructor
  · intro read
    have opens : ∃ first rest, text = first :: rest ∧ first ≠ '#' ∧ first ≠ ':' := by
      rw [opens_iff trims]
      intro refused
      rw [ofLine_eq, trims.trim_eq, if_pos refused] at read
      cases read
    obtain ⟨other, found, spells⟩ := exists_ofLine trims opens
    rw [read] at found
    cases found
    exact spells
  · intro spells
    obtain ⟨other, found, also⟩ := exists_ofLine trims spells.opens
    rw [found, spells.unique also]

theorem ofLine_isSome (trims : Trims line.toList text) : (ofLine line).isSome = true ↔
    ∃ first rest, text = first :: rest ∧ first ≠ '#' ∧ first ≠ ':' := by
  rw [Option.isSome_iff_exists]
  constructor
  · rintro ⟨token, read⟩
    exact ((ofLine_eq_some trims).mp read).opens
  · intro opens
    obtain ⟨token, read, _⟩ := exists_ofLine trims opens
    exact ⟨token, read⟩

/-- A type is not empty and begins as the line does. -/
theorem Spells.type_cons (spells : Spells text token) (trims : Trims line.toList text) :
    ∃ first more, token.elementType.toList = first :: more ∧ first ≠ '#' := by
  obtain ⟨first, rest, rfl, sign, colon⟩ := spells.opens
  have solid : Solid [first] := by
    intro c member
    rw [List.mem_singleton.mp member]
    exact ⟨colon, trims.first first rfl⟩
  obtain ⟨more, same⟩ := spells.longest [first] (by simp) solid
  exact ⟨first, more, same.symm, sign⟩

theorem toList_line (token : Token) :
    token.line.toList = token.elementType.toList ++ ':' :: token.value.toList := by
  have joined : token.line = token.elementType ++ ":" ++ token.value := rfl
  rw [joined, String.toList_append, String.toList_append, List.append_assoc]
  rfl

/-- A solid beginning of a line does not reach past the first colon. -/
theorem Solid.prefix_of_colon {type after longer : List Char} (solid : Solid longer)
    (begins : longer <+: type ++ ':' :: after) : longer <+: type := by
  rcases List.prefix_or_prefix_of_prefix begins (List.prefix_append type _) with below | above
  · exact below
  · obtain ⟨more, rfl⟩ := above
    cases more with
    | nil => simp
    | cons c later =>
      have colon : c = ':' := by
        rw [List.prefix_append_right_inj, List.cons_prefix_cons] at begins
        exact begins.1
      exact absurd colon (solid c (by simp)).1

/-- What a token is written as is trimmed and spells it, if anything does. -/
theorem Spells.written (spells : Spells text token) (trims : Trims line.toList text) :
    Trims token.line.toList token.line.toList ∧ Spells token.line.toList token := by
  obtain ⟨first, more, type, sign⟩ := spells.type_cons trims
  have solid := spells.solid
  have here := solid first (by simp [type])
  rw [toList_line]
  constructor
  · constructor
    case within => exact ⟨[], [], by simp, by simp, by simp⟩
    case first =>
      intro c known
      rw [type, List.cons_append, List.head?_cons, Option.mem_some_iff] at known
      exact known ▸ here.2
    case last =>
      intro c known
      rw [List.getLast?_append, List.getLast?_cons] at known
      cases final : token.value.toList.getLast? with
      | none =>
        have colon : c = ':' := by simpa [final] using known.symm
        exact colon ▸ isBlank_colon
      | some other =>
        have same : other = c := by simpa [final] using known
        exact same ▸ spells.value.last other final
  · constructor
    case opens => exact ⟨first, more ++ ':' :: token.value.toList, by simp [type], sign, here.1⟩
    case typed => exact List.prefix_append _ _
    case solid => exact solid
    case longest => exact fun longer begins free => free.prefix_of_colon begins
    case value =>
      rw [List.drop_left]
      exact ⟨⟨[], [], by simp [pastColon], by simp, by simp⟩, spells.value.first, spells.value.last⟩

/-- A token that was read is read again from the line it is written as. -/
theorem ofLine_line (read : ofLine line = some token) : ofLine token.line = some token := by
  have spells := (ofLine_eq_some (trims_trim line.toList)).mp read
  obtain ⟨trims, again⟩ := spells.written (trims_trim line.toList)
  exact (ofLine_eq_some trims).mpr again

end Token

end Constructicon
