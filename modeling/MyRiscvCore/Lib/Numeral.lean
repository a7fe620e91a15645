import Mathlib.Data.Nat.Digits.Lemmas

/-!
# Numeral — numbers as digits and words as lists

Numbers are printed in a base with a symbol for each digit, the highest digit first, and read back from the front of a
list of symbols until one comes that is no digit (`print_eq_map`, `readFrom_map`). A line is split into the words
between blanks the way a loop does that reads words until the end of the line: if blanks end the line, the last read
finds no word (`fields_intercalate`).
-/

namespace Numeral

variable {α : Type}

/-- The digits of a number, the highest first. -/
def print (b : Nat) (symbol : Nat → α) (n : Nat) : List α :=
  if n = 0 then [symbol 0] else ((Nat.digits b n).map symbol).reverse

/-- The value of the digits at the front, added to what has been read, and what follows them. -/
def readFrom (b : Nat) (value : α → Option Nat) (acc : Nat) : List α → Nat × List α
  | [] => (acc, [])
  | a :: as =>
    match value a with
    | some d => readFrom b value (d + b * acc) as
    | none => (acc, a :: as)

section Digits

variable {b : Nat} {symbol : Nat → α} {value : α → Option Nat} {rest : List α}

theorem readFrom_of_head (h : ∀ a ∈ rest.head?, value a = none) (acc : Nat) :
    readFrom b value acc rest = (acc, rest) := by
  cases rest with
  | nil => rfl
  | cons a as => rw [readFrom, h a rfl]

/-- Digits are read one after the other. -/
theorem readFrom_map {ds : List Nat} (hval : ∀ d ∈ ds, value (symbol d) = some d)
    (h : ∀ a ∈ rest.head?, value a = none) (acc : Nat) :
    readFrom b value acc (ds.map symbol ++ rest) = (ds.foldl (fun acc d => d + b * acc) acc, rest) := by
  induction ds generalizing acc with
  | nil => exact readFrom_of_head h acc
  | cons d ds ih =>
    rw [List.map_cons, List.cons_append, readFrom, hval d List.mem_cons_self, List.foldl_cons]
    exact ih (fun d hd => hval d (List.mem_cons_of_mem _ hd)) _

/-- A printed number is a list of digits with that value. -/
theorem print_eq_map (hb : 1 < b) (symbol : Nat → α) (n : Nat) : ∃ ds, print b symbol n = ds.map symbol ∧
    ds ≠ [] ∧ (∀ d ∈ ds, d < b) ∧ ds.foldl (fun acc d => d + b * acc) 0 = n := by
  unfold print
  split_ifs with hn
  · refine ⟨[0], rfl, List.cons_ne_nil _ _, fun d hd => ?_, by simp [hn]⟩
    rw [List.mem_singleton.mp hd]
    omega
  · refine ⟨(b.digits n).reverse, List.map_reverse.symm, ?_, fun d hd => ?_, ?_⟩
    · rw [Ne, List.reverse_eq_nil_iff]
      exact Nat.digits_ne_nil_iff_ne_zero.mpr hn
    · exact Nat.digits_lt_base hb (List.mem_reverse.mp hd)
    · rw [List.foldl_reverse]
      have hdigits := Nat.ofDigits_digits b n
      rw [Nat.ofDigits_eq_foldr] at hdigits
      exact hdigits

end Digits

/-- The words of a line after what has been read of the current word. -/
def fieldsFrom (blank : α → Bool) (word : List α) : List α → List (List α)
  | [] => [word]
  | a :: as =>
    if !blank a then fieldsFrom blank (word ++ [a]) as
    else if word.isEmpty then fieldsFrom blank [] as
    else word :: fieldsFrom blank [] as

/-- The words of a line. -/
def fields (blank : α → Bool) (line : List α) : List (List α) :=
  fieldsFrom blank [] line

section Words

variable {blank : α → Bool} {word line : List α}

theorem fieldsFrom_blank {b : α} (hb : blank b = true) (hw : word ≠ []) (rest : List α) :
    fieldsFrom blank word (b :: rest) = word :: fields blank rest := by
  rw [fieldsFrom, hb, if_neg (by simp), if_neg (by simpa using hw)]
  rfl

/-- A word without blanks is read on. -/
theorem fieldsFrom_append (h : ∀ a ∈ line, blank a = false) (word rest : List α) :
    fieldsFrom blank word (line ++ rest) = fieldsFrom blank (word ++ line) rest := by
  induction line generalizing word with
  | nil => rw [List.nil_append, List.append_nil]
  | cons a as ih =>
    rw [List.cons_append, fieldsFrom, h a List.mem_cons_self, if_pos (by simp),
      ih (fun a ha => h a (List.mem_cons_of_mem _ ha)), List.append_assoc, List.singleton_append]

/-- A word before a blank. -/
theorem fields_cons {b : α} (hb : blank b = true) (hw : word ≠ []) (h : ∀ a ∈ word, blank a = false)
    (rest : List α) : fields blank (word ++ b :: rest) = word :: fields blank rest := by
  rw [fields, fieldsFrom_append h, List.nil_append, fieldsFrom_blank hb hw]

theorem fields_single (h : ∀ a ∈ word, blank a = false) : fields blank word = [word] := by
  have hread := fieldsFrom_append h [] []
  rw [List.append_nil] at hread
  rw [fields, hread]
  rfl

/-- Words put together with single blanks are read back, and so is an empty one behind the last blank. -/
theorem fields_intercalate {b : α} (hb : blank b = true) {words : List (List α)}
    (hw : ∀ w ∈ words, w ≠ [] ∧ ∀ a ∈ w, blank a = false) (hword : ∀ a ∈ word, blank a = false) :
    fields blank ([b].intercalate (words ++ [word])) = words ++ [word] := by
  induction words with
  | nil =>
    rw [List.nil_append, List.intercalate_singleton]
    exact fields_single hword
  | cons w ws ih =>
    obtain ⟨hnil, hplain⟩ := hw w List.mem_cons_self
    rw [List.cons_append, List.intercalate_cons_of_ne_nil (by simp), List.append_assoc, List.singleton_append,
      fields_cons hb hnil hplain, ih fun x hx => hw x (List.mem_cons_of_mem _ hx)]

end Words

end Numeral
