import CodeNav.Json.Parse
import CodeNav.Proofs.Json.Number
import CodeNav.Proofs.Json.Quoted

/-!
# Documents, written and read

The documents that the library writes are `Plain`. Reading the compact form of such a document gives
it back, and nothing is left of the text (`read_print`). The induction is on the document; in an array
or object, the induction on its members carries the text behind them along. The compact form is a
single line (`Plain.newline_notMem`).
-/

namespace CodeNav.Json

/-- The documents that the library writes. -/
inductive Plain : Json → Prop
  | null : Plain null
  | bool (b : Bool) : Plain (bool b)
  | ofNat {n : Nat} (h : n < wordSize) : Plain (ofNat n)
  | string (s : String) : Plain (string s)
  | ofItems {items : List Json} (h : ∀ v ∈ items, Plain v) : Plain (ofItems items)
  | ofFields {fields : List (String × Json)} (h : ∀ f ∈ fields, Plain f.2) : Plain (ofFields fields)

variable {v : Json} {items : List Json} {fields : List (String × Json)} {key : String}
  {depth : Nat} {rest : List Char}

/-! ## The compact form in parts -/

/-- What is written behind an item of an array, where `items` are the items to come. -/
def printMoreItems : List Json → List Char
  | [] => [']']
  | items => ',' :: printItems items

def keyed (fields : List (String × Json)) : List (Option String × Json) :=
  fields.map fun f => (some f.1, f.2)

/-- What is written behind a field of an object, where `fields` are the fields to come. -/
def printMoreFields : List (String × Json) → List Char
  | [] => ['\x7d']
  | fields => ',' :: printFields (keyed fields)

theorem printItems_cons (v : Json) (items : List Json) :
    printItems (v :: items) = print v ++ printMoreItems items := by
  cases items <;> rfl

theorem printFields_cons (key : String) (v : Json) (fields : List (String × Json)) :
    printFields ((some key, v) :: keyed fields) =
      quote key.toList ++ ':' :: (print v ++ printMoreFields fields) := by
  cases fields <;> simp [keyed, printFields, printMoreFields]

theorem endsNumber_printMoreItems (items : List Json) (rest : List Char) :
    EndsNumber (printMoreItems items ++ rest) := by
  cases items <;> rintro c ⟨⟩ <;> decide

theorem endsNumber_printMoreFields (fields : List (String × Json)) (rest : List Char) :
    EndsNumber (printMoreFields fields ++ rest) := by
  cases fields <;> rintro c ⟨⟩ <;> decide

theorem isBlank_of_isDigit {c : Char} (h : c.isDigit = true) : isBlank c = false := by
  rw [Bool.eq_false_iff]
  intro hblank
  simp only [isBlank, Bool.or_eq_true, decide_eq_true_eq] at hblank
  rcases hblank with ((rfl | rfl) | rfl) | rfl <;> cases h

theorem exists_digits_eq_cons (n : Nat) : ∃ c cs, digits n = c :: cs ∧ c.isDigit = true := by
  obtain ⟨c, cs, h⟩ := List.exists_cons_of_ne_nil (digits_ne_nil n)
  exact ⟨c, cs, h, isDigit_of_mem_digits (n := n) (by rw [h]; exact List.mem_cons_self)⟩

/-- The first character of a document is neither a blank nor a closing bracket. -/
theorem Plain.exists_print_eq_cons (h : Plain v) :
    ∃ c cs, print v = c :: cs ∧ isBlank c = false ∧ c ≠ ']' := by
  cases h with
  | null => exact ⟨'n', _, rfl, by decide, by decide⟩
  | bool b => cases b <;> exact ⟨_, _, rfl, by decide, by decide⟩
  | @ofNat n h =>
      obtain ⟨c, cs, hdigits, hc⟩ := exists_digits_eq_cons n
      refine ⟨c, cs, hdigits, isBlank_of_isDigit hc, ?_⟩
      rintro rfl
      cases hc
  | string s => exact ⟨'"', _, rfl, by decide, by decide⟩
  | ofItems h => exact ⟨'[', _, rfl, by decide, by decide⟩
  | ofFields h => exact ⟨'\x7b', _, rfl, by decide, by decide⟩

/-! ## Numbers -/

theorem skipBlanks_cons {c : Char} (h : isBlank c = false) (cs : List Char) :
    skipBlanks (c :: cs) = c :: cs := by
  rw [skipBlanks, List.dropWhile_cons, h]
  rfl

theorem readValue_digits {n : Nat} (h : n < wordSize) (depth : Nat) (hrest : EndsNumber rest) :
    readValue (depth + 1) (digits n ++ rest) = (ofNat n, some rest) := by
  have hread := readNumber_digits h hrest
  obtain ⟨c, cs, hdigits, hc⟩ := exists_digits_eq_cons n
  rw [hdigits, List.cons_append] at hread ⊢
  rw [readValue, skipBlanks_cons (isBlank_of_isDigit hc)]
  -- a digit opens nothing but a number
  split
  all_goals try (rename_i heq; obtain ⟨rfl, -⟩ := List.cons.inj heq; cases hc)
  · rename_i heq
    cases heq
  · rw [hread]
    rfl

/-! ## Steps of the reader -/

theorem readItems_comma (depth : Nat) (cs : List Char) :
    readItems (depth + 1) false (',' :: cs) =
      ((readValue depth cs).1 :: (readMoreItems depth (readValue depth cs).2).1,
        (readMoreItems depth (readValue depth cs).2).2) :=
  rfl

theorem readItems_first {c : Char} (hblank : isBlank c = false) (hc : c ≠ ']') (depth : Nat)
    (cs : List Char) :
    readItems (depth + 1) true (c :: cs) =
      ((readValue depth (c :: cs)).1 :: (readMoreItems depth (readValue depth (c :: cs)).2).1,
        (readMoreItems depth (readValue depth (c :: cs)).2).2) := by
  unfold readItems
  rw [skipBlanks_cons hblank]
  split
  · rename_i heq
    exact absurd (List.cons.inj heq).1 hc
  · contradiction
  · rfl
  · contradiction

theorem readFields_first (depth : Nat) (key cs : List Char) :
    readFields (depth + 1) true (quote key ++ cs) = readField depth (quote key ++ cs) :=
  rfl

theorem readFields_comma (depth : Nat) (key cs : List Char) :
    readFields (depth + 1) false (',' :: (quote key ++ cs)) = readField depth (quote key ++ cs) :=
  rfl

theorem readField_quote (depth : Nat) (key : String) (cs : List Char) :
    readField (depth + 1) (quote key.toList ++ ':' :: cs) =
      match readValue depth cs with
      | (v, none) => ([(some key, v)], none)
      | (v, some rest) =>
          ((some key, v) :: (readFields depth false rest).1, (readFields depth false rest).2) := by
  rw [quote, List.cons_append, List.append_assoc, readField, List.singleton_append,
    readQuoted_quote]
  simp only
  rw [skipBlanks_cons (by decide)]
  simp only
  rcases readValue depth cs with ⟨v, _ | rest⟩ <;> rfl

/-! ## Arrays and objects -/

/-- Reading the compact form of a document gives it back, whatever follows. A number is only read to
its end if nothing behind it continues it. Two levels of calls for each character are enough. -/
def ReadsBack (v : Json) : Prop :=
  ∀ depth rest, 2 * (print v).length ≤ depth → EndsNumber rest →
    readValue depth (print v ++ rest) = (v, some rest)

theorem readMoreItems_print (hitems : ∀ v ∈ items, ReadsBack v)
    (hdepth : 2 * (printMoreItems items).length ≤ depth) :
    readMoreItems depth (some (printMoreItems items ++ rest)) = (items, some rest) := by
  induction items generalizing depth with
  | nil =>
      obtain ⟨depth, rfl⟩ := Nat.exists_eq_add_of_le' (show 2 ≤ depth from hdepth)
      rfl
  | cons v items ih =>
      obtain ⟨hv, hitems⟩ := List.forall_mem_cons.mp hitems
      have hsplit : printMoreItems (v :: items) = ',' :: (print v ++ printMoreItems items) := by
        rw [← printItems_cons]
        rfl
      rw [hsplit, List.length_cons, List.length_append] at hdepth
      obtain ⟨depth, rfl⟩ := Nat.exists_eq_add_of_le' (show 2 ≤ depth by omega)
      rw [hsplit, readMoreItems, List.cons_append, List.append_assoc, readItems_comma,
        hv depth _ (by omega) (endsNumber_printMoreItems items rest), ih hitems (by omega)]

theorem readItems_print (hplain : ∀ v ∈ items, Plain v) (hitems : ∀ v ∈ items, ReadsBack v)
    (hdepth : 2 * (printItems items).length < depth) :
    readItems depth true (printItems items ++ rest) = (items, some rest) := by
  obtain ⟨depth, rfl⟩ := Nat.exists_eq_add_of_le' (Nat.zero_lt_of_lt hdepth)
  cases items with
  | nil => rfl
  | cons v items =>
      obtain ⟨hv, hitems⟩ := List.forall_mem_cons.mp hitems
      obtain ⟨c, cs, hprint, hblank, hc⟩ := (hplain v List.mem_cons_self).exists_print_eq_cons
      rw [printItems_cons, List.length_append] at hdepth
      have hvalue := hv depth _ (by omega) (endsNumber_printMoreItems items rest)
      rw [printItems_cons, List.append_assoc]
      rw [hprint, List.cons_append] at hvalue ⊢
      rw [readItems_first hblank hc, hvalue, readMoreItems_print hitems (by omega)]

theorem readField_print (hv : ReadsBack v) (hfields : ∀ f ∈ fields, ReadsBack f.2)
    (hdepth : 2 * (print v ++ printMoreFields fields).length < depth) :
    readField depth (quote key.toList ++ ':' :: (print v ++ (printMoreFields fields ++ rest))) =
      ((some key, v) :: keyed fields, some rest) := by
  induction fields generalizing depth key v with
  | nil =>
      obtain ⟨depth, rfl⟩ := Nat.exists_eq_add_of_le' (Nat.zero_lt_of_lt hdepth)
      simp only [printMoreFields, List.length_append, List.length_singleton] at hdepth
      obtain ⟨depth, rfl⟩ := Nat.exists_eq_add_of_le' (show 1 ≤ depth by omega)
      rw [readField_quote, hv (depth + 1) _ (by omega) (endsNumber_printMoreFields [] rest)]
      rfl
  | cons f fields ih =>
      obtain ⟨key', v'⟩ := f
      simp only [List.forall_mem_cons] at hfields
      obtain ⟨hv', hfields⟩ := hfields
      have hsplit : printMoreFields ((key', v') :: fields) =
          ',' :: (quote key'.toList ++ ':' :: (print v' ++ printMoreFields fields)) := by
        rw [← printFields_cons]
        rfl
      have hlength := hdepth
      rw [hsplit] at hlength
      simp only [List.length_append, List.length_cons] at hlength hdepth
      obtain ⟨depth, rfl⟩ := Nat.exists_eq_add_of_le' (show 2 ≤ depth by omega)
      have hmore : 2 * (print v' ++ printMoreFields fields).length < depth := by
        rw [List.length_append]
        omega
      rw [readField_quote, hv (depth + 1) _ (by omega) (endsNumber_printMoreFields _ rest), hsplit,
        List.cons_append, List.append_assoc, List.cons_append, List.append_assoc]
      simp only [readFields_comma, ih hv' hfields hmore]
      rfl

theorem readFields_print (hfields : ∀ f ∈ fields, ReadsBack f.2)
    (hdepth : 2 * (printFields (keyed fields)).length < depth) :
    readFields depth true (printFields (keyed fields) ++ rest) = (keyed fields, some rest) := by
  obtain ⟨depth, rfl⟩ := Nat.exists_eq_add_of_le' (Nat.zero_lt_of_lt hdepth)
  cases fields with
  | nil => rfl
  | cons f fields =>
      obtain ⟨key, v⟩ := f
      simp only [List.forall_mem_cons] at hfields
      have hsplit : printFields (keyed ((key, v) :: fields)) =
          quote key.toList ++ ':' :: (print v ++ printMoreFields fields) :=
        printFields_cons key v fields
      rw [hsplit, List.length_append, List.length_cons] at hdepth
      rw [hsplit, List.append_assoc, List.cons_append, List.append_assoc, readFields_first,
        readField_print hfields.1 hfields.2 (by omega)]
      rfl

/-! ## Documents -/

/-- **Reading a document undoes writing it.** -/
theorem Plain.readsBack (h : Plain v) : ReadsBack v := by
  induction h with
  | null =>
      intro depth rest hdepth _
      obtain ⟨depth, rfl⟩ := Nat.exists_eq_add_of_le' (show 8 ≤ depth from hdepth)
      rfl
  | bool b =>
      intro depth rest hdepth _
      cases b with
      | true =>
          obtain ⟨depth, rfl⟩ := Nat.exists_eq_add_of_le' (show 8 ≤ depth from hdepth)
          rfl
      | false =>
          obtain ⟨depth, rfl⟩ := Nat.exists_eq_add_of_le' (show 10 ≤ depth from hdepth)
          rfl
  | @ofNat n h =>
      intro depth rest hdepth hrest
      have hlength : 0 < (digits n).length := List.length_pos_iff.mpr (digits_ne_nil n)
      have hprint : print (.ofNat n) = digits n := rfl
      rw [hprint] at hdepth ⊢
      obtain ⟨depth, rfl⟩ := Nat.exists_eq_add_of_le' (show 1 ≤ depth by omega)
      exact readValue_digits h depth hrest
  | string s =>
      intro depth rest hdepth _
      have hprint : print (.string s) = '"' :: (s.toList.flatMap escapeChar ++ ['"']) := rfl
      rw [hprint, List.length_cons] at hdepth
      obtain ⟨depth, rfl⟩ := Nat.exists_eq_add_of_le' (show 1 ≤ depth by omega)
      rw [hprint, List.cons_append, List.append_assoc]
      show readString _ = _
      rw [readString, List.singleton_append, readQuoted_quote]
  | @ofItems items h ih =>
      intro depth rest hdepth _
      have hprint : print (.ofItems items) = '[' :: printItems items := rfl
      rw [hprint, List.length_cons] at hdepth
      obtain ⟨depth, rfl⟩ := Nat.exists_eq_add_of_le' (show 1 ≤ depth by omega)
      rw [hprint, List.cons_append]
      show (array (readItems depth true _).1 _, _) = _
      rw [readItems_print h ih (by omega)]
      rfl
  | @ofFields fields h ih =>
      intro depth rest hdepth _
      have hprint : print (.ofFields fields) = '\x7b' :: printFields (keyed fields) := rfl
      rw [hprint, List.length_cons] at hdepth
      obtain ⟨depth, rfl⟩ := Nat.exists_eq_add_of_le' (show 1 ≤ depth by omega)
      rw [hprint, List.cons_append]
      show (object (readFields depth true _).1 _, _) = _
      rw [readFields_print ih (by omega)]
      rfl

theorem read_print (h : Plain v) : read (print v) = (v, some []) := by
  have hread := h.readsBack (4 * (print v).length + 4) [] (by omega) (by rintro c ⟨⟩)
  rwa [List.append_nil] at hread

/-! ## Lines -/

theorem newline_notMem_digits (n : Nat) : '\n' ∉ digits n := by
  intro h
  cases isDigit_of_mem_digits h

theorem newline_notMem_printItems (hitems : ∀ v ∈ items, '\n' ∉ print v) :
    '\n' ∉ printItems items := by
  induction items with
  | nil => decide
  | cons v items ih =>
      obtain ⟨hv, hitems⟩ := List.forall_mem_cons.mp hitems
      have hmore : '\n' ∉ printMoreItems items := by
        cases items with
        | nil => decide
        | cons w items => exact List.not_mem_cons_of_ne_of_not_mem (by decide) (ih hitems)
      rw [printItems_cons]
      exact List.not_mem_append hv hmore

theorem newline_notMem_printFields (hfields : ∀ f ∈ fields, '\n' ∉ print f.2) :
    '\n' ∉ printFields (keyed fields) := by
  induction fields with
  | nil => decide
  | cons f fields ih =>
      obtain ⟨key, v⟩ := f
      obtain ⟨hv, hfields⟩ := List.forall_mem_cons.mp hfields
      have hmore : '\n' ∉ printMoreFields fields := by
        cases fields with
        | nil => decide
        | cons f fields => exact List.not_mem_cons_of_ne_of_not_mem (by decide) (ih hfields)
      have hprint : printFields (keyed ((key, v) :: fields)) = _ := printFields_cons key v fields
      rw [hprint]
      exact List.not_mem_append (newline_notMem_quote _)
        (List.not_mem_cons_of_ne_of_not_mem (by decide) (List.not_mem_append hv hmore))

theorem Plain.newline_notMem (h : Plain v) : '\n' ∉ print v := by
  induction h with
  | null => decide
  | bool b => cases b <;> decide
  | @ofNat n h => exact newline_notMem_digits n
  | string s => exact newline_notMem_quote s.toList
  | ofItems h ih =>
      exact List.not_mem_cons_of_ne_of_not_mem (by decide) (newline_notMem_printItems ih)
  | ofFields h ih =>
      exact List.not_mem_cons_of_ne_of_not_mem (by decide) (newline_notMem_printFields ih)

end CodeNav.Json
