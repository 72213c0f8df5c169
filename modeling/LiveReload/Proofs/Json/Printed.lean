import LiveReload.Json.Value
import LiveReload.Proofs.Json.Text

namespace LiveReload.Json

open Wire (Value)

variable {α β σ : Type} {depth : Nat}

-- The reader takes `text` for `value`, whatever follows. A closing bracket begins no value.
structure Reads (reader : Reader α) (text : List Char) (value : α) : Prop where
  run : ∀ rest, reader.run (text ++ rest) = .ok (value, rest)
  head : ∃ c tail, text = c :: tail ∧ isBlank c = false ∧ c ≠ ']'

theorem Reads.map {reader : Reader α} {text : List Char} {value : α} (h : Reads reader text value)
    (f : α → β) : Reads (reader.map f) text (f value) where
  run rest := by
    simp only [Reader.map, h.run]
    rfl
  head := h.head

theorem dropBlank_cons {c : Char} (h : isBlank c = false) (text : List Char) :
    dropBlank (c :: text) = c :: text := by
  simp [dropBlank, h]

section Separated

theorem separated_cons (item : List Char) (items : List (List Char)) :
    separated (item :: items) = item ++ items.flatMap (',' :: ·) := by
  induction items generalizing item with
  | nil => simp [separated]
  | cons next items ih =>
      have hstep : separated (item :: next :: items) = item ++ [','] ++ separated (next :: items) :=
        List.intercalate_cons_cons
      rw [hstep, ih, List.flatMap_cons, List.append_assoc]
      rfl

end Separated

section List

variable {item : Reader α} {first : Bool} {text rest : List Char}

theorem listBody_close (h : nextItem first text = .ok (.close rest)) :
    listBody item first text = .ok ([], rest) := by
  rw [listBody]
  split <;> simp_all

theorem listBody_item {value : α} {tail : List Char} (h : nextItem first text = .ok (.item tail))
    (hi : item.run tail = .ok (value, rest)) :
    listBody item first text = (listBody item false rest).map (value :: ·) := by
  rw [listBody]
  split
  · simp_all
  · simp_all
  · split <;> simp_all

variable {print : β → List Char} {value : β → α} {items : List β}

theorem listBody_flatMap (h : ∀ one ∈ items, Reads item (print one) (value one))
    (rest : List Char) :
    listBody item false ((items.map print).flatMap (',' :: ·) ++ ']' :: rest) =
      .ok (items.map value, rest) := by
  induction items with
  | nil => exact listBody_close rfl
  | cons one items ih =>
      rw [List.map_cons, List.flatMap_cons, List.cons_append, List.cons_append, List.append_assoc,
        listBody_item rfl ((h one List.mem_cons_self).run _),
        ih fun other hm => h other (List.mem_cons_of_mem one hm)]
      rfl

theorem listBody_separated (h : ∀ one ∈ items, Reads item (print one) (value one))
    (rest : List Char) :
    listBody item true (separated (items.map print) ++ ']' :: rest) =
      .ok (items.map value, rest) := by
  cases items with
  | nil => exact listBody_close rfl
  | cons one items =>
      have hone := h one List.mem_cons_self
      obtain ⟨c, tail, hc, hb, hn⟩ := hone.head
      rw [List.map_cons, separated_cons, List.append_assoc, listBody_item ?_ (hone.run _),
        listBody_flatMap fun other hm => h other (List.mem_cons_of_mem one hm)]
      · rfl
      · rw [hc, List.cons_append, nextItem, dropBlank_cons hb]
        simp [hn]

end List

section Object

variable {reading : Reading} {member : Member σ} {first : Bool} {state next result : σ}
  {text rest : List Char}

-- `member` takes the printed members one by one, from `state` to `result`.
inductive Takes (member : Member σ) : σ → List (String × List Char) → σ → Prop where
  | nil (state : σ) : Takes member state [] state
  | cons {state next result : σ} {key : String} {text : List Char} {reader : Reader σ}
      {members : List (String × List Char)} (reads : Reads reader text next)
      (known : member state key = .ok reader) (rest : Takes member next members result) :
      Takes member state ((key, text) :: members) result

theorem objectBody_close (h : nextKey first text = .ok (.close rest)) :
    objectBody reading member state first text = .ok (state, rest) := by
  rw [objectBody]
  split <;> simp_all

theorem objectBody_item {tail : List Char} (h : nextKey first text = .ok (.item tail))
    (hm : memberBody reading member state tail = .ok (next, rest)) :
    objectBody reading member state first text = objectBody reading member next false rest := by
  rw [objectBody]
  split
  · simp_all
  · simp_all
  · split <;> simp_all

def printMember (member : String × List Char) : List Char := printText member.1 ++ ':' :: member.2

theorem printObject_append (members : List (String × List Char)) (rest : List Char) :
    printObject members ++ rest =
      '\x7b' :: (separated (members.map printMember) ++ '\x7d' :: rest) := by
  simp only [printObject, List.cons_append, List.append_assoc, List.nil_append]
  rfl

theorem memberBody_printed {key : String} {reader : Reader σ}
    (hk : member state key = .ok reader) (hr : Reads reader text next) (rest : List Char) :
    memberBody .strict member state
      (key.toList.flatMap escapedChar ++ '"' :: ':' :: (text ++ rest)) = .ok (next, rest) := by
  rw [memberBody, textBody_flatMap_escapedChar]
  simp only [Step.andThen, String.ofList_toList, hk]
  exact hr.run rest

theorem printMember_append (key : String) (text rest : List Char) :
    printMember (key, text) ++ rest =
      '"' :: (key.toList.flatMap escapedChar ++ '"' :: ':' :: (text ++ rest)) := by
  simp [printMember, printText]

theorem objectBody_flatMap {members : List (String × List Char)}
    (h : Takes member state members result) (rest : List Char) :
    objectBody .strict member state false
      ((members.map printMember).flatMap (',' :: ·) ++ '\x7d' :: rest) = .ok (result, rest) := by
  induction h with
  | nil => exact objectBody_close rfl
  | cons reads known more ih =>
      rw [List.map_cons, List.flatMap_cons, List.cons_append, List.cons_append, List.append_assoc,
        printMember_append, objectBody_item rfl (memberBody_printed known reads _), ih]

theorem objectBody_separated {members : List (String × List Char)}
    (h : Takes member state members result) (rest : List Char) :
    objectBody .strict member state true
      (separated (members.map printMember) ++ '\x7d' :: rest) = .ok (result, rest) := by
  cases h with
  | nil => exact objectBody_close rfl
  | cons reads known more =>
      rw [List.map_cons, separated_cons, List.append_assoc, printMember_append,
        objectBody_item rfl (memberBody_printed known reads _), objectBody_flatMap more]

end Object

section Value

theorem printText_append (text : String) (rest : List Char) :
    printText text ++ rest = '"' :: (text.toList.flatMap escapedChar ++ '"' :: rest) := by
  simp [printText]

theorem run_value_succ (depth : Nat) (text : List Char) : (Reader.value (depth + 1)).run text =
    valueBody (some (Reader.value depth)) (dropBlank text) := rfl

theorem reads_text (depth : Nat) (text : String) :
    Reads (Reader.value depth) (printText text) (.text text) where
  run rest := by
    have hbody (inner : Option (Reader Value)) :
        valueBody inner (dropBlank (printText text ++ rest)) = .ok (.text text, rest) := by
      rw [printText_append, dropBlank_cons rfl, valueBody, textValue_printed]
      rfl
    cases depth with
    | zero => exact hbody none
    | succ depth => exact hbody (some (Reader.value depth))
  head := ⟨'"', _, rfl, rfl, by decide⟩

theorem reads_list {print : β → List Char} {value : β → Value} {items : List β}
    (h : ∀ one ∈ items, Reads (Reader.value depth) (print one) (value one)) :
    Reads (Reader.value (depth + 1)) (printList (items.map print)) (.list (items.map value)) where
  run rest := by
    have hlist : printList (items.map print) ++ rest =
        '[' :: (separated (items.map print) ++ ']' :: rest) := by
      simp [printList]
    rw [hlist, run_value_succ, dropBlank_cons rfl, valueBody, listBody_separated h]
    rfl
  head := ⟨'[', _, rfl, rfl, by decide⟩

-- Members are kept in the order in which they come.
def keep (inner : Reader Value) : Member (List (Value × Value)) := fun entries key =>
  .ok (inner.map fun value => entries ++ [(.text key, value)])

theorem reads_object {members : List (String × List Char)} {entries : List (Value × Value)}
    (h : Takes (keep (Reader.value depth)) [] members entries) :
    Reads (Reader.value (depth + 1)) (printObject members) (.map entries) where
  run rest := by
    rw [printObject_append, run_value_succ, dropBlank_cons rfl, valueBody]
    exact congrArg (Step.map · Value.map) (objectBody_separated h rest)
  head := ⟨'\x7b', _, rfl, rfl, by decide⟩

end Value

end LiveReload.Json
