import LiveReload.Proofs.Json.Printed

namespace LiveReload.Json

open Wire (Value)

variable {α β σ : Type} {part text more : List Char}

section Cut

-- `part` is a beginning of `text` that lacks at least its last character.
def Cut (part text : List Char) : Prop := part <+: text ∧ part ≠ text

theorem not_cut_nil : ¬Cut part [] := fun h => h.2 (List.prefix_nil.1 h.1)

theorem cut_cons {c : Char} :
    Cut part (c :: text) ↔ part = [] ∨ ∃ tail, part = c :: tail ∧ Cut tail text := by
  cases part with
  | nil => simp [Cut]
  | cons d part =>
      simp only [Cut, List.cons_prefix_cons, ne_eq, List.cons.injEq, reduceCtorEq, false_or]
      constructor
      · rintro ⟨⟨rfl, hp⟩, hne⟩
        exact ⟨part, ⟨rfl, rfl⟩, hp, fun h => hne ⟨rfl, h⟩⟩
      · rintro ⟨_, ⟨rfl, rfl⟩, hp, hne⟩
        exact ⟨⟨rfl, hp⟩, fun h => hne h.2⟩

theorem cut_append :
    Cut part (text ++ more) ↔ Cut part text ∨ ∃ tail, part = text ++ tail ∧ Cut tail more := by
  induction text generalizing part with
  | nil => simp [not_cut_nil]
  | cons c text ih =>
      rw [List.cons_append, cut_cons, cut_cons]
      simp only [ih]
      constructor
      · rintro (rfl | ⟨_, rfl, h | ⟨tail, rfl, h⟩⟩)
        · exact .inl (.inl rfl)
        · exact .inl (.inr ⟨_, rfl, h⟩)
        · exact .inr ⟨tail, rfl, h⟩
      · rintro ((rfl | ⟨tail, rfl, h⟩) | ⟨tail, rfl, h⟩)
        · exact .inl rfl
        · exact .inr ⟨tail, rfl, .inl h⟩
        · exact .inr ⟨_, rfl, .inr ⟨tail, rfl, h⟩⟩

end Cut

-- Whatever is missing at the end of `text`, the step reports that the text ends too early.
def NeedsAll (step : List Char → Step α) (text : List Char) : Prop :=
  ∀ part, Cut part text → step part = .error .endOfText

namespace NeedsAll

variable {step : List Char → Step α}

theorem map (h : NeedsAll step text) (f : α → β) :
    NeedsAll (fun text => (step text).map f) text := by
  intro part hpart
  simp only [h part hpart]
  rfl

theorem andThen {value : α} {next : α → List Char → Step β} (h : NeedsAll step text)
    (hread : ∀ rest, step (text ++ rest) = .ok (value, rest)) (hnext : NeedsAll (next value) more) :
    NeedsAll (fun text => (step text).andThen next) (text ++ more) := by
  intro part hpart
  rcases cut_append.1 hpart with hcut | ⟨tail, rfl, hcut⟩
  · simp only [h part hcut]
    rfl
  · simp only [hread]
    exact hnext tail hcut

end NeedsAll

section Text

theorem byteLength_hexDigit_lt {n : Nat} (h : n < 16) : byteLength ['0', '0', hexDigit n] < 4 := by
  revert n
  decide +kernel

theorem needsAll_singleton {step : List Char → Step α} (h : step [] = .error .endOfText)
    (c : Char) : NeedsAll step [c] := by
  intro part hpart
  rcases cut_cons.1 hpart with rfl | ⟨_, rfl, hcut⟩
  · exact h
  · exact absurd hcut not_cut_nil

theorem needsAll_cons {step : List Char → Step α} {c : Char} (h : step [] = .error .endOfText)
    (htail : ∀ tail, Cut tail text → step (c :: tail) = .error .endOfText) :
    NeedsAll step (c :: text) := by
  intro part hpart
  rcases cut_cons.1 hpart with rfl | ⟨tail, rfl, hcut⟩
  · exact h
  · exact htail tail hcut

-- All that is missing is some of the digits, and each of them is one byte.
theorem needsAll_codeUnit {n : Nat} (h : n < 16) (last : Char) :
    NeedsAll codeUnit ['0', '0', hexDigit n, last] := by
  refine needsAll_cons rfl fun first hfirst => ?_
  rcases cut_cons.1 hfirst with rfl | ⟨second, rfl, hsecond⟩
  · rfl
  rcases cut_cons.1 hsecond with rfl | ⟨third, rfl, hthird⟩
  · rfl
  rcases cut_cons.1 hthird with rfl | ⟨fourth, rfl, hfourth⟩
  · exact if_pos (byteLength_hexDigit_lt h)
  · exact absurd hfourth not_cut_nil

theorem textBody_slash {reading : Reading} {fault : Fault} {tail : List Char}
    (h : escape reading tail = .error fault) :
    textBody reading ('\\' :: tail) = .error fault := by
  rw [textBody]
  split <;> simp_all

theorem needsAll_slash (h : NeedsAll (escape .strict) text) :
    NeedsAll (textBody .strict) ('\\' :: text) :=
  needsAll_cons (by rw [textBody]) fun tail hcut => textBody_slash (h tail hcut)

-- An escape may break off anywhere.
theorem needsAll_escapedChar (c : Char) : NeedsAll (textBody .strict) (escapedChar c) := by
  unfold escapedChar
  split
  iterate 7 exact needsAll_slash (needsAll_singleton rfl _)
  split
  · rename_i hc
    have hdigit : c.toNat / 16 < 16 := by
      have : c.toNat < 32 := hc
      omega
    refine needsAll_slash (needsAll_cons rfl fun tail hcut => ?_)
    rw [escape.eq_def]
    simp only [needsAll_codeUnit hdigit _ tail hcut]
    rfl
  · exact needsAll_singleton (by rw [textBody]) c

-- The characters between the quotes, with the quote that closes them.
theorem needsAll_textBody (chars : List Char) :
    NeedsAll (textBody .strict) (chars.flatMap escapedChar ++ ['"']) := by
  induction chars with
  | nil => exact needsAll_singleton (by rw [textBody]) '"'
  | cons c chars ih =>
      intro part hpart
      rw [List.flatMap_cons, List.append_assoc] at hpart
      rcases cut_append.1 hpart with hcut | ⟨tail, rfl, hcut⟩
      · exact needsAll_escapedChar c part hcut
      · rw [textBody_escapedChar, ih tail hcut]
        rfl

theorem needsAll_textValue (text : String) :
    NeedsAll textValue (text.toList.flatMap escapedChar ++ ['"']) :=
  (needsAll_textBody text.toList).map String.ofList

end Text

section List

variable {item : Reader α} {first : Bool}

theorem listBody_error {fault : Fault} (h : nextItem first text = .error fault) :
    listBody item first text = .error fault := by
  rw [listBody]
  split <;> simp_all

theorem listBody_item_error {fault : Fault} {tail : List Char}
    (h : nextItem first text = .ok (.item tail)) (hi : item.run tail = .error fault) :
    listBody item first text = .error fault := by
  rw [listBody]
  split
  · simp_all
  · simp_all
  · split <;> simp_all

variable {print : β → List Char} {value : β → α} {items : List β}

theorem needsAll_flatMap (h : ∀ one ∈ items, Reads item (print one) (value one))
    (hcut : ∀ one ∈ items, NeedsAll item.run (print one)) :
    NeedsAll (listBody item false) ((items.map print).flatMap (',' :: ·) ++ [']']) := by
  induction items with
  | nil => exact needsAll_singleton (listBody_error rfl) ']'
  | cons one items ih =>
      rw [List.map_cons, List.flatMap_cons, List.cons_append, List.cons_append, List.append_assoc]
      refine needsAll_cons (listBody_error rfl) fun part hpart => ?_
      rcases cut_append.1 hpart with hone | ⟨tail, rfl, htail⟩
      · exact listBody_item_error rfl (hcut one List.mem_cons_self part hone)
      · have hmore := ih (fun other hm => h other (List.mem_cons_of_mem one hm))
          (fun other hm => hcut other (List.mem_cons_of_mem one hm)) tail htail
        rw [listBody_item rfl ((h one List.mem_cons_self).run tail), hmore]
        rfl

theorem needsAll_separated (h : ∀ one ∈ items, Reads item (print one) (value one))
    (hcut : ∀ one ∈ items, NeedsAll item.run (print one)) :
    NeedsAll (listBody item true) (separated (items.map print) ++ [']']) := by
  cases items with
  | nil => exact needsAll_singleton (listBody_error rfl) ']'
  | cons one items =>
      obtain ⟨c, inside, hc, hb, hn⟩ := (h one List.mem_cons_self).head
      have hitem (tail : List Char) : nextItem true (c :: tail) = .ok (.item (c :: tail)) := by
        rw [nextItem, dropBlank_cons hb]
        simp [hn]
      have hone := hcut one List.mem_cons_self
      have hread := (h one List.mem_cons_self).run
      intro part hpart
      rw [List.map_cons, separated_cons, List.append_assoc] at hpart
      rcases cut_append.1 hpart with hfirst | ⟨tail, rfl, htail⟩
      · have herror := hone part hfirst
        rw [hc] at hfirst
        rcases cut_cons.1 hfirst with rfl | ⟨tail, rfl, -⟩
        · exact listBody_error rfl
        · exact listBody_item_error (hitem tail) herror
      · have hmore := needsAll_flatMap (fun other hm => h other (List.mem_cons_of_mem one hm))
          (fun other hm => hcut other (List.mem_cons_of_mem one hm)) tail htail
        have hrun := hread tail
        rw [hc, List.cons_append] at hrun
        rw [hc, List.cons_append, listBody_item (hitem _) hrun, hmore]
        rfl

end List

section Object

variable {member : Member σ} {first : Bool} {state next result : σ}

theorem objectBody_error {fault : Fault} (h : nextKey first text = .error fault) :
    objectBody .strict member state first text = .error fault := by
  rw [objectBody]
  split <;> simp_all

theorem objectBody_item_error {fault : Fault} {tail : List Char}
    (h : nextKey first text = .ok (.item tail))
    (hm : memberBody .strict member state tail = .error fault) :
    objectBody .strict member state first text = .error fault := by
  rw [objectBody]
  split
  · simp_all
  · simp_all
  · split <;> simp_all

-- Each printed value is needed to its end, wherever its member stands.
def NeedsValues (member : Member σ) (members : List (String × List Char)) : Prop :=
  ∀ one ∈ members, ∀ state reader, member state one.1 = .ok reader → NeedsAll reader.run one.2

theorem needsAll_memberBody {key : String} {reader : Reader σ}
    (hk : member state key = .ok reader) (hr : NeedsAll reader.run text) :
    NeedsAll (memberBody .strict member state)
      (key.toList.flatMap escapedChar ++ '"' :: ':' :: text) := by
  have hkey : key.toList.flatMap escapedChar ++ '"' :: ':' :: text =
      (key.toList.flatMap escapedChar ++ ['"']) ++ ([':'] ++ text) := by simp
  have hread (rest : List Char) :
      textBody .strict (key.toList.flatMap escapedChar ++ ['"'] ++ rest) =
        .ok (key.toList, rest) := by
    simpa using textBody_flatMap_escapedChar key.toList rest
  rw [hkey]
  refine (needsAll_textBody key.toList).andThen hread ?_
  simp only [String.ofList_toList, hk]
  exact (needsAll_singleton rfl ':').andThen (fun _ => rfl) hr

-- The text breaks off in this member or in what comes behind it.
theorem objectBody_cut_member {key : String} {reader : Reader σ} {tail : List Char}
    (hk : member state key = .ok reader) (hread : Reads reader text next)
    (hr : NeedsAll reader.run text) (hmore : NeedsAll (objectBody .strict member next false) more)
    (hn : nextKey first part = .ok (.item tail))
    (htail : Cut tail (key.toList.flatMap escapedChar ++ '"' :: ':' :: (text ++ more))) :
    objectBody .strict member state first part = .error .endOfText := by
  have hsplit : key.toList.flatMap escapedChar ++ '"' :: ':' :: (text ++ more) =
      (key.toList.flatMap escapedChar ++ '"' :: ':' :: text) ++ more := by simp
  rw [hsplit] at htail
  rcases cut_append.1 htail with hmember | ⟨behind, rfl, hbehind⟩
  · exact objectBody_item_error hn (needsAll_memberBody hk hr tail hmember)
  · have hbody := memberBody_printed hk hread behind
    rw [List.append_assoc, List.cons_append, List.cons_append] at hn
    rw [objectBody_item hn hbody]
    exact hmore behind hbehind

theorem needsAll_members {members : List (String × List Char)}
    (h : Takes member state members result) (hcut : NeedsValues member members) :
    NeedsAll (objectBody .strict member state false)
      ((members.map printMember).flatMap (',' :: ·) ++ ['\x7d']) := by
  induction h with
  | nil => exact needsAll_singleton (objectBody_error rfl) '\x7d'
  | cons reads known _ ih =>
      have hr := hcut _ List.mem_cons_self _ _ known
      have hmore := ih fun one hm => hcut one (List.mem_cons_of_mem _ hm)
      rw [List.map_cons, List.flatMap_cons, List.cons_append, List.cons_append, List.append_assoc,
        printMember_append]
      refine needsAll_cons (objectBody_error rfl) fun part hpart => ?_
      rcases cut_cons.1 hpart with rfl | ⟨tail, rfl, htail⟩
      · exact objectBody_error rfl
      · exact objectBody_cut_member known reads hr hmore rfl htail

theorem needsAll_object {members : List (String × List Char)}
    (h : Takes member state members result) (hcut : NeedsValues member members) :
    NeedsAll (objectBody .strict member state true)
      (separated (members.map printMember) ++ ['\x7d']) := by
  cases h with
  | nil => exact needsAll_singleton (objectBody_error rfl) '\x7d'
  | cons reads known more =>
      have hr := hcut _ List.mem_cons_self _ _ known
      have hmore := needsAll_members more fun one hm => hcut one (List.mem_cons_of_mem _ hm)
      rw [List.map_cons, separated_cons, List.append_assoc, printMember_append]
      refine needsAll_cons (objectBody_error rfl) fun tail htail => ?_
      exact objectBody_cut_member known reads hr hmore rfl htail

end Object

section Value

variable {depth : Nat}

theorem needsAll_valueText (depth : Nat) (text : String) :
    NeedsAll (Reader.value depth).run (printText text) := by
  have hbody (inner : Option (Reader Value)) :
      NeedsAll (fun text => valueBody inner (dropBlank text)) (printText text) :=
    needsAll_cons rfl fun tail htail => by
      rw [dropBlank_cons rfl, valueBody, needsAll_textValue text tail htail]
      rfl
  cases depth with
  | zero => exact hbody none
  | succ depth => exact hbody (some (Reader.value depth))

theorem needsAll_printList {print : β → List Char} {value : β → Value} {items : List β}
    (h : ∀ one ∈ items, Reads (Reader.value depth) (print one) (value one))
    (hcut : ∀ one ∈ items, NeedsAll (Reader.value depth).run (print one)) :
    NeedsAll (Reader.value (depth + 1)).run (printList (items.map print)) :=
  needsAll_cons rfl fun tail htail => by
    rw [run_value_succ, dropBlank_cons rfl, valueBody, needsAll_separated h hcut tail htail]
    rfl

theorem needsAll_printObject {members : List (String × List Char)} {entries : List (Value × Value)}
    (h : Takes (keep (Reader.value depth)) [] members entries)
    (hcut : ∀ one ∈ members, NeedsAll (Reader.value depth).run one.2) :
    NeedsAll (Reader.value (depth + 1)).run (printObject members) := by
  have hvalues : NeedsValues (keep (Reader.value depth)) members := by
    intro one hm state reader hknown
    cases hknown
    exact (hcut one hm).map _
  refine needsAll_cons rfl fun tail htail => ?_
  have hbody := needsAll_object h hvalues tail htail
  rw [run_value_succ, dropBlank_cons rfl, valueBody]
  exact congrArg (Step.map · Value.map) hbody

end Value

end LiveReload.Json
