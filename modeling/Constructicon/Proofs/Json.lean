import Mathlib.Tactic.SplitIfs
import Constructicon.Json.Reader
import Constructicon.Json.Printer

/-! Reading back what was printed. A printed value is read as that value and what follows it is left
unread, at any indentation and after any blanks; texts come back whatever characters they hold.
Values with numbers are left out, since where a number ends depends on what follows it. -/
namespace Constructicon

theorem Text.hexValue?_hexDigit : ∀ n < 16, hexValue? (hexDigit n) = some n := by decide

namespace Json

section Texts

theorem hexNumber?_control {n : Nat} (control : n < 32) :
    Text.hexNumber? ['0', '0', Text.hexDigit (n / 16), Text.hexDigit (n % 16)] = some n := by
  have high : Text.hexValue? (Text.hexDigit (n / 16)) = some (n / 16) :=
    Text.hexValue?_hexDigit _ (by omega)
  have low : Text.hexValue? (Text.hexDigit (n % 16)) = some (n % 16) :=
    Text.hexValue?_hexDigit _ (by omega)
  have zero : Text.hexValue? '0' = some 0 := by decide
  have whole : 16 * (n / 16) + n % 16 = n := Nat.div_add_mod n 16
  simp [Text.hexNumber?, zero, high, low, whole]

theorem readText_escape (c : Char) (rest : List Char) :
    readText (escape c ++ rest) = prepend c (readText rest) := by
  have named {n : Nat} (same : c.toNat = n) : c = Char.ofNat n := by rw [← same, Char.ofNat_toNat]
  unfold escape
  split_ifs with quote backslash backspace tab line feed back control
  · subst quote; rfl
  · subst backslash; rfl
  · rw [named backspace]; rfl
  · subst tab; rfl
  · subst line; rfl
  · rw [named feed]; rfl
  · subst back; rfl
  · simp only [List.cons_append, List.nil_append, readText, hexNumber?_control control]
    rw [if_neg (by omega), if_neg (by omega), Char.ofNat_toNat]
  · simp [readText, control]

theorem readText_flatMap_escape (text rest : List Char) :
    readText (text.flatMap escape ++ '"' :: rest) = .ok (text, rest) := by
  induction text with
  | nil => rfl
  | cons c more ih =>
    rw [List.flatMap_cons, List.append_assoc, readText_escape, ih]
    rfl

/-- The inside of a quoted text and the mark that ends it. -/
theorem readText_quote (text : String) (rest : List Char) : ∃ inside,
    quote text ++ rest = '"' :: inside ∧ readText inside = .ok (text.toList, rest) := by
  refine ⟨text.toList.flatMap escape ++ '"' :: rest, ?_, readText_flatMap_escape _ rest⟩
  simp [quote]

end Texts

section Blanks

theorem skipSpaces_cons {c : Char} (solid : isSpace c = false) (rest : List Char) :
    skipSpaces (c :: rest) = c :: rest := by
  simp [skipSpaces, solid]

theorem skipSpaces_newline (depth : Nat) (text : List Char) :
    skipSpaces (newline depth ++ text) = skipSpaces text := by
  unfold skipSpaces
  rw [List.dropWhile_append_of_pos]
  intro c member
  rcases List.mem_cons.mp member with rfl | blank
  · rfl
  · rw [List.eq_of_mem_replicate blank]
    rfl

/-- The text of an item: it begins with a character that is neither a blank nor the mark that ends
the list of items. -/
def Begins (close : Char) (text : List Char) : Prop :=
  ∃ c more, text = c :: more ∧ isSpace c = false ∧ c ≠ close

theorem Begins.skipSpaces {close : Char} {text : List Char} (begins : Begins close text)
    (rest : List Char) : Json.skipSpaces (text ++ rest) = text ++ rest := by
  obtain ⟨c, more, rfl, solid, _⟩ := begins
  exact skipSpaces_cons solid (more ++ rest)

end Blanks

section Lists

variable {α : Type} {close : Char} {item : List Char → Read α} {shown : α → List Char}

/-- After any blanks the item is read, and no more than its text. -/
def Reads (item : List Char → Read α) (value : α) (shown : List Char) : Prop :=
  ∀ text rest, skipSpaces text = shown ++ rest → item text = .ok (value, rest)

/-- An item that is read wherever it stands in a list that ends with `close`. -/
def Listed (close : Char) (item : List Char → Read α) (shown : α → List Char) (value : α) : Prop :=
  Begins close (shown value) ∧ Reads item value (shown value)

theorem Listed.read {value : α} (listed : Listed close item shown value) (depth : Nat)
    (rest : List Char) : item (newline depth ++ (shown value ++ rest)) = .ok (value, rest) := by
  apply listed.2
  rw [skipSpaces_newline, listed.1.skipSpaces]

/-- The items after the first, each on a line of its own. -/
def following (depth : Nat) (shown : α → List Char) (items : List α) : List Char :=
  items.flatMap fun value => ',' :: (newline depth ++ shown value)

theorem following_cons (depth : Nat) (shown : α → List Char) (value : α) (items : List α) :
    following depth shown (value :: items) =
      ',' :: (newline depth ++ (shown value ++ following depth shown items)) := by
  simp [following]

theorem length_le_following (depth : Nat) (shown : α → List Char) (items : List α) :
    items.length ≤ (following depth shown items).length := by
  induction items with
  | nil => exact Nat.le_refl _
  | cons value rest ih =>
    rw [following_cons]
    simp only [List.length_cons, List.length_append]
    omega

/-- There are never more items than characters, so the bound on the items is not met. -/
theorem readMore_following (ends : isSpace close = false) (noComma : close ≠ ',') {items : List α}
    (listed : ∀ value ∈ items, Listed close item shown value) {bound : Nat}
    (enough : items.length ≤ bound) (depth closing : Nat) (rest : List Char) :
    readMore close item bound (following depth shown items ++ (newline closing ++ close :: rest)) =
      .ok (items, rest) := by
  induction items generalizing bound with
  | nil =>
    have blank : skipSpaces (following depth shown [] ++ (newline closing ++ close :: rest)) =
        close :: rest := (skipSpaces_newline closing _).trans (skipSpaces_cons ends rest)
    unfold readMore
    simp [blank]
  | cons value others ih =>
    cases bound with
    | zero => cases enough
    | succ bound =>
      have first := (listed value List.mem_cons_self).read depth
        (following depth shown others ++ (newline closing ++ close :: rest))
      have more := ih (fun later member => listed later (List.mem_cons_of_mem _ member))
        (Nat.le_of_succ_le_succ enough)
      rw [following_cons, List.cons_append, List.append_assoc, List.append_assoc]
      unfold readMore
      rw [skipSpaces_cons (by decide)]
      simp only [noComma.symm, if_false, if_true, first, bind, Except.bind, more]
      rfl

/-- All items of a list on lines of their own, between the marks that enclose it. -/
def body (indent : Nat) (shown : α → List Char) : List α → List Char
  | [] => []
  | value :: items => newline (indent + 1) ++
      (shown value ++ (following (indent + 1) shown items ++ newline indent))

theorem readItems_body (ends : isSpace close = false) (noComma : close ≠ ',') {items : List α}
    (listed : ∀ value ∈ items, Listed close item shown value) (indent : Nat) (rest : List Char) :
    readItems close item (body indent shown items ++ close :: rest) = .ok (items, rest) := by
  cases items with
  | nil =>
    unfold readItems
    simp [body, skipSpaces_cons ends]
  | cons value others =>
    obtain ⟨⟨begins, reads⟩, listed⟩ := List.forall_mem_cons.mp listed
    let left := following (indent + 1) shown others ++ (newline indent ++ close :: rest)
    have solid : skipSpaces (shown value ++ left) = shown value ++ left := begins.skipSpaces left
    have first : item (shown value ++ left) = .ok (value, left) := reads _ _ solid
    have enough : others.length ≤ left.length := by
      have size := length_le_following (indent + 1) shown others
      rw [List.length_append]
      omega
    have more : readMore close item left.length left = .ok (others, rest) :=
      readMore_following ends noComma listed enough (indent + 1) indent rest
    have shape : body indent shown (value :: others) ++ close :: rest =
        newline (indent + 1) ++ (shown value ++ left) := by
      simp [body, left]
    obtain ⟨c, text, same, _, apart⟩ := begins
    unfold readItems
    rw [shape, skipSpaces_newline, solid]
    rw [same, List.cons_append] at first ⊢
    simp only [apart, if_false, first, bind, Except.bind, more]
    rfl

end Lists

section Values

/-- Values without numbers in which lists and objects are nested at most so deep. -/
inductive Plain : Nat → Json → Prop where
  | null (depth : Nat) : Plain depth .null
  | bool (depth : Nat) (value : Bool) : Plain depth (.bool value)
  | string (depth : Nat) (text : String) : Plain depth (.string text)
  | array {depth : Nat} {items : List Json} (plain : ∀ item ∈ items, Plain depth item) :
      Plain (depth + 1) (.array items)
  | object {depth : Nat} {fields : List (String × Json)}
      (plain : ∀ field ∈ fields, Plain depth field.2) : Plain (depth + 1) (.object fields)

def printField (indent : Nat) (field : String × Json) : List Char :=
  quote field.1 ++ ':' :: ' ' :: field.2.print indent

theorem printItems_eq (indent : Nat) (items : List Json) :
    printItems indent items = following indent (print indent) items := by
  induction items with
  | nil => rfl
  | cons item rest ih => simp [printItems, following_cons, ih]

theorem printFields_eq (indent : Nat) (fields : List (String × Json)) :
    printFields indent fields = following indent (printField indent) fields := by
  induction fields with
  | nil => rfl
  | cons field rest ih => simp [printFields, following_cons, printField, ih]

theorem print_array (indent : Nat) (items : List Json) :
    print indent (.array items) = '[' :: (body indent (print (indent + 1)) items ++ [']']) := by
  cases items with
  | nil => rfl
  | cons item rest => simp [print, body, printItems_eq]

theorem print_object (indent : Nat) (fields : List (String × Json)) :
    print indent (.object fields) =
      '\x7b' :: (body indent (printField (indent + 1)) fields ++ ['\x7d']) := by
  cases fields with
  | nil => rfl
  | cons field rest => simp [print, body, printFields_eq, printField]

variable {depth : Nat} {json : Json}

theorem Plain.begins (plain : Plain depth json) {close : Char} (mark : close = ']' ∨ close = '\x7d')
    (indent : Nat) : Begins close (json.print indent) := by
  have apart (c : Char) (list : c ≠ ']') (object : c ≠ '\x7d') : c ≠ close := by
    rcases mark with rfl | rfl
    · exact list
    · exact object
  cases plain with
  | null => exact ⟨'n', _, rfl, rfl, apart _ (by decide) (by decide)⟩
  | bool depth value =>
    cases value with
    | true => exact ⟨'t', _, rfl, rfl, apart _ (by decide) (by decide)⟩
    | false => exact ⟨'f', _, rfl, rfl, apart _ (by decide) (by decide)⟩
  | string depth text => exact ⟨'"', _, rfl, rfl, apart _ (by decide) (by decide)⟩
  | array => exact ⟨'[', _, print_array indent _, rfl, apart _ (by decide) (by decide)⟩
  | object => exact ⟨'\x7b', _, print_object indent _, rfl, apart _ (by decide) (by decide)⟩

theorem reads_field {indent : Nat} {field : String × Json}
    (reads : Reads (readValue depth) field.2 (field.2.print indent))
    (begins : Begins '\x7d' (field.2.print indent)) :
    Reads (readField (readValue depth)) field (printField indent field) := by
  intro text rest here
  obtain ⟨inside, quoted, name⟩ :=
    readText_quote field.1 (':' :: ' ' :: (field.2.print indent ++ rest))
  have value : readValue depth (' ' :: (field.2.print indent ++ rest)) = .ok (field.2, rest) :=
    reads _ _ (begins.skipSpaces rest)
  rw [printField, List.append_assoc] at here
  unfold readField
  rw [here]
  simp only [List.cons_append, quoted, name, bind, Except.bind]
  rw [skipSpaces_cons (by decide)]
  simp only [value, String.ofList_toList]
  rfl

theorem Plain.reads (plain : Plain depth json) (indent : Nat) :
    Reads (readValue depth) json (json.print indent) := by
  induction plain generalizing indent with
  | null depth =>
    intro text rest here
    unfold readValue
    rw [here]
    rfl
  | bool depth value =>
    intro text rest here
    unfold readValue
    rw [here]
    cases value <;> rfl
  | string depth text =>
    intro _ rest here
    obtain ⟨inside, quoted, read⟩ := readText_quote text rest
    unfold readValue
    rw [here, print, quoted]
    simp [read, Except.map]
  | @array depth items plain ih =>
    intro text rest here
    have listed : ∀ item ∈ items, Listed ']' (readValue depth) (print (indent + 1)) item := by
      intro item member
      exact ⟨(plain item member).begins (.inl rfl) (indent + 1), ih item member (indent + 1)⟩
    unfold readValue
    rw [here, print_array]
    simp only [List.cons_append, List.append_assoc, List.nil_append]
    rw [readItems_body (by decide) (by decide) listed]
    rfl
  | @object depth fields plain ih =>
    intro text rest here
    have listed : ∀ field ∈ fields,
        Listed '\x7d' (readField (readValue depth)) (printField (indent + 1)) field := by
      intro field member
      have begins := (plain field member).begins (.inr rfl) (indent + 1)
      exact ⟨⟨'"', _, rfl, rfl, by decide⟩, reads_field (ih field member (indent + 1)) begins⟩
    unfold readValue
    rw [here, print_object]
    simp only [List.cons_append, List.append_assoc, List.nil_append]
    rw [readItems_body (by decide) (by decide) listed]
    rfl

/-- What was printed is read back, and nothing is left over. -/
theorem Plain.read_pretty (plain : Plain 127 json) : read json.pretty = .ok (json, []) := by
  unfold read pretty
  rw [String.toList_ofList]
  apply plain.reads 0
  have begins := plain.begins (.inl rfl) 0
  simpa using begins.skipSpaces []

end Values

end Json

end Constructicon
