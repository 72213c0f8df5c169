import LiveReload.Proofs.Json.Grammar
import LiveReload.Proofs.Json.Text

namespace LiveReload.Json

variable {text rest : List Char}

section Number

-- No number goes on with the text.
def Ends (rest : List Char) : Prop :=
  ∀ c ∈ rest.head?, isDigit c = false ∧ c ≠ '.' ∧ c ≠ 'e' ∧ c ≠ 'E'

theorem digits_sound {taken : List Char} (h : digits text = .ok (taken, rest)) :
    text = taken ++ rest ∧ Digits taken := by
  simp only [digits] at h
  split at h
  · cases h
  · rename_i hd
    cases h
    refine ⟨List.takeWhile_append_dropWhile.symm, fun he => hd (List.isEmpty_iff.2 he), ?_⟩
    exact List.all_takeWhile

theorem digits_complete {taken : List Char} (h : Digits taken)
    (hrest : ∀ c ∈ rest.head?, isDigit c = false) : digits (taken ++ rest) = .ok (taken, rest) := by
  have hall : ∀ c ∈ taken, isDigit c = true := List.all_eq_true.1 h.2
  have htake : rest.takeWhile isDigit = [] := by
    cases rest with
    | nil => rfl
    | cons c rest => exact List.takeWhile_cons_of_neg (by simp [hrest c rfl])
  have hdrop : rest.dropWhile isDigit = rest := by
    cases rest with
    | nil => rfl
    | cons c rest => exact List.dropWhile_cons_of_neg (by simp [hrest c rfl])
  simp only [digits]
  rw [List.takeWhile_append_of_pos hall, List.dropWhile_append_of_pos hall, htake, hdrop,
    List.append_nil, if_neg (by simp [h.1])]

theorem fractionPart_sound {fraction : List Char} (h : fractionPart text = .ok (fraction, rest)) :
    FractionText fraction text rest := by
  unfold fractionPart at h
  split at h
  · obtain ⟨rfl, hd⟩ := digits_sound h
    exact .present hd
  · cases h
    exact .absent _

theorem fractionPart_complete {fraction : List Char} (h : FractionText fraction text rest)
    (hrest : ∀ c ∈ rest.head?, isDigit c = false ∧ c ≠ '.') :
    fractionPart text = .ok (fraction, rest) := by
  cases h with
  | absent =>
      unfold fractionPart
      split
      · exact absurd rfl (hrest '.' rfl).2
      · rfl
  | present hd => exact digits_complete hd fun c hc => (hrest c hc).1

-- What follows the mark of an exponent.
def afterMark (text : List Char) : Step (Option (Bool × List Char)) :=
  match text with
  | '-' :: rest => (digits rest).map fun digits => some (true, digits)
  | '+' :: rest => (digits rest).map fun digits => some (false, digits)
  | _ => (digits text).map fun digits => some (false, digits)

theorem exponentPart_mark {mark : Char} (h : mark = 'e' ∨ mark = 'E') (text : List Char) :
    exponentPart (mark :: text) = afterMark text := by
  rcases h with rfl | rfl <;> rfl

theorem afterMark_digits {taken : List Char} (h : Digits taken) (rest : List Char) :
    afterMark (taken ++ rest) =
      (digits (taken ++ rest)).map fun digits => some (false, digits) := by
  obtain ⟨c, tail, rfl⟩ := List.exists_cons_of_ne_nil h.1
  have hc : isDigit c = true := List.all_eq_true.1 h.2 c List.mem_cons_self
  have hminus : c ≠ '-' := fun he => absurd (he ▸ hc) (by decide)
  have hplus : c ≠ '+' := fun he => absurd (he ▸ hc) (by decide)
  rw [List.cons_append, afterMark]
  · simpa using hminus
  · simpa using hplus

theorem afterMark_sound {mark : Char} (hm : mark = 'e' ∨ mark = 'E')
    {exponent : Option (Bool × List Char)} (h : afterMark text = .ok (exponent, rest)) :
    ExponentText exponent (mark :: text) rest := by
  unfold afterMark at h
  split at h
  all_goals
    obtain ⟨taken, hread, rfl⟩ := Step.map_eq_ok.1 h
    obtain ⟨rfl, hd⟩ := digits_sound hread
  · exact .negative hm hd
  · exact .positive hm hd
  · exact .unsigned hm hd

theorem exponentPart_sound {exponent : Option (Bool × List Char)}
    (h : exponentPart text = .ok (exponent, rest)) : ExponentText exponent text rest := by
  unfold exponentPart at h
  simp only at h
  split at h
  · exact afterMark_sound (.inl rfl) h
  · exact afterMark_sound (.inr rfl) h
  · cases h
    exact .absent _

theorem exponentPart_complete {exponent : Option (Bool × List Char)}
    (h : ExponentText exponent text rest) (hrest : Ends rest) :
    exponentPart text = .ok (exponent, rest) := by
  have hread {taken : List Char} (hd : Digits taken) : digits (taken ++ rest) = .ok (taken, rest) :=
    digits_complete hd fun c hc => (hrest c hc).1
  cases h with
  | absent =>
      unfold exponentPart
      simp only
      split
      · exact absurd rfl (hrest 'e' rfl).2.2.1
      · exact absurd rfl (hrest 'E' rfl).2.2.2
      · rfl
  | unsigned hm hd =>
      rw [exponentPart_mark hm, afterMark_digits hd, hread hd]
      rfl
  | positive hm hd =>
      rw [exponentPart_mark hm, afterMark, hread hd]
      rfl
  | negative hm hd =>
      rw [exponentPart_mark hm, afterMark, hread hd]
      rfl

theorem FractionText.head {fraction : List Char} (h : FractionText fraction text rest) :
    text = rest ∨ text.head? = some '.' := by
  cases h with
  | absent => exact .inl rfl
  | present => exact .inr rfl

theorem ExponentText.head {exponent : Option (Bool × List Char)}
    (h : ExponentText exponent text rest) :
    text = rest ∨ text.head? = some 'e' ∨ text.head? = some 'E' := by
  cases h with
  | absent => exact .inl rfl
  | unsigned hm => exact .inr (by simpa using hm)
  | positive hm => exact .inr (by simpa using hm)
  | negative hm => exact .inr (by simpa using hm)

theorem unsignedNumeral_sound {negative : Bool} {result : Numeral}
    (h : unsignedNumeral negative text = .ok (result, rest)) :
    result.negative = negative ∧ UnsignedText result text rest := by
  obtain ⟨whole, afterWhole, hw, h⟩ := Step.andThen_eq_ok.1 h
  obtain ⟨fraction, afterFraction, hf, h⟩ := Step.andThen_eq_ok.1 h
  obtain ⟨exponent, he, rfl⟩ := Step.map_eq_ok.1 h
  obtain ⟨_, _, hd, hz⟩ := Step.andThen_eq_ok.1 hw
  split at hz
  · rename_i hzero
    cases hz
    obtain ⟨htext, hdigits⟩ := digits_sound hd
    have hz : whole.head? = some '0' → whole.length = 1 := by
      simpa [Decidable.imp_iff_not_or] using hzero
    exact ⟨rfl, .mk hdigits hz htext (fractionPart_sound hf) (exponentPart_sound he)⟩
  · cases hz

theorem unsignedNumeral_complete {result : Numeral} (h : UnsignedText result text rest)
    (hrest : Ends rest) : unsignedNumeral result.negative text = .ok (result, rest) := by
  obtain ⟨hdigits, hzero, htext, hf, he⟩ := h
  rename_i fraction exponent
  have hexponent : ∀ c ∈ exponent.head?, isDigit c = false ∧ c ≠ '.' := by
    intro c hc
    rcases he.head with rfl | hhead | hhead
    · exact ⟨(hrest c hc).1, (hrest c hc).2.1⟩
    · cases hhead.symm.trans hc
      decide
    · cases hhead.symm.trans hc
      decide
  have hfraction : ∀ c ∈ fraction.head?, isDigit c = false := by
    intro c hc
    rcases hf.head with rfl | hhead
    · exact (hexponent c hc).1
    · cases hhead.symm.trans hc
      decide
  have hwhole : wholePart text = .ok (result.whole, fraction) := by
    have htest : (result.whole.head? ≠ some '0' || result.whole.length = 1 : Bool) = true := by
      simpa [Decidable.imp_iff_not_or] using hzero
    rw [wholePart, htext, digits_complete hdigits hfraction, Step.ensure, Step.andThen,
      if_pos htest]
  rw [unsignedNumeral, hwhole]
  simp only [Step.andThen, fractionPart_complete hf hexponent, exponentPart_complete he hrest]
  rfl

theorem numeral_sound {result : Numeral} (h : numeral text = .ok (result, rest)) :
    NumeralText result text rest := by
  unfold numeral at h
  split at h
  · obtain ⟨hn, htext⟩ := unsignedNumeral_sound h
    exact .signed hn htext
  · obtain ⟨hn, htext⟩ := unsignedNumeral_sound h
    exact .unsigned hn htext

theorem UnsignedText.head {result : Numeral} (h : UnsignedText result text rest) :
    ∃ c tail, text = c :: tail ∧ isDigit c = true := by
  obtain ⟨hdigits, -, htext, -, -⟩ := h
  obtain ⟨c, tail, hwhole⟩ := List.exists_cons_of_ne_nil hdigits.1
  refine ⟨c, _, by rw [htext, hwhole, List.cons_append], ?_⟩
  exact List.all_eq_true.1 hdigits.2 c (by rw [hwhole]; exact List.mem_cons_self)

theorem numeral_complete {result : Numeral} (h : NumeralText result text rest)
    (hrest : Ends rest) : numeral text = .ok (result, rest) := by
  cases h with
  | unsigned hn htext =>
      obtain ⟨c, tail, rfl, hc⟩ := htext.head
      have hread := unsignedNumeral_complete htext hrest
      have hminus : c ≠ '-' := fun he => absurd (he ▸ hc) (by decide)
      rw [hn] at hread
      rw [numeral]
      · exact hread
      · simpa using hminus
  | signed hn htext =>
      have hread := unsignedNumeral_complete htext hrest
      rw [hn] at hread
      exact hread

end Number

section Text

variable {reading : Reading} {chars : List Char}

theorem isHexDigit_eq_isSome (c : Char) : isHexDigit c = (hexValue? c).isSome := by
  unfold isHexDigit hexValue?
  repeat' split
  all_goals simp_all

theorem codeUnit_sound {unit : Nat} (h : codeUnit text = .ok (unit, rest)) :
    ∃ digits, digits.length = 4 ∧ digits.all isHexDigit ∧ text = digits ++ rest ∧
      ∀ more, codeUnit (digits ++ more) = .ok (unit, more) := by
  unfold codeUnit at h
  split at h
  · rename_i a b c d _
    split at h
    · rename_i ha hb hc hd
      cases h
      refine ⟨[a, b, c, d], rfl, ?_, rfl, fun more => ?_⟩
      · simp [isHexDigit_eq_isSome, ha, hb, hc, hd]
      · simp [codeUnit, ha, hb, hc, hd]
    · cases h
  · split at h <;> cases h

theorem codeUnit_complete {digits : List Char} (hl : digits.length = 4)
    (hd : digits.all isHexDigit) (more : List Char) :
    ∃ unit, codeUnit (digits ++ more) = .ok (unit, more) := by
  match digits, hl with
  | [a, b, c, d], _ =>
    simp only [List.all_cons, List.all_nil, isHexDigit_eq_isSome, Bool.and_eq_true,
      Option.isSome_iff_exists, and_true] at hd
    obtain ⟨⟨_, ha⟩, ⟨_, hb⟩, ⟨_, hc⟩, ⟨_, hd⟩⟩ := hd
    simp [codeUnit, ha, hb, hc, hd]

theorem trailingUnit_sound {unit : Nat} (h : trailingUnit text = .ok (unit, rest)) :
    ∃ digits, digits.length = 4 ∧ digits.all isHexDigit ∧ text = '\\' :: 'u' :: (digits ++ rest) ∧
      ∀ more, trailingUnit ('\\' :: 'u' :: (digits ++ more)) = .ok (unit, more) := by
  obtain ⟨_, tail, hw, h⟩ := Step.andThen_eq_ok.1 h
  obtain ⟨_, _, hc, h⟩ := Step.andThen_eq_ok.1 h
  split at h
  · rename_i htrailing
    cases h
    obtain ⟨digits, hl, hd, rfl, hmore⟩ := codeUnit_sound hc
    refine ⟨digits, hl, hd, word_rest hw, fun more => ?_⟩
    have hword : word ['\\', 'u'] ('\\' :: 'u' :: (digits ++ more)) =
        .ok ((), digits ++ more) := rfl
    simp [trailingUnit, hword, Step.andThen, Step.ensure, hmore, htrailing]
  · cases h

-- What is escaped stands behind its backslash.
theorem escape_sound (h : escape reading text = .ok (chars, rest)) :
    ∃ escaped, (∀ more, Inside more → Inside ('\\' :: (escaped ++ more))) ∧
      text = escaped ++ rest ∧ ∀ more, escape reading (escaped ++ more) = .ok (chars, more) := by
  unfold escape at h
  split at h
  case h_10 =>
    obtain ⟨unit, tail, hc, hlast⟩ := Step.andThen_eq_ok.1 h
    obtain ⟨digits, hl, hd, rfl, hunit⟩ := codeUnit_sound hc
    have hescape (more : List Char) := escape.eq_10 reading (digits ++ more)
    simp only [hunit, Step.andThen] at hescape
    cases reading with
    | skipping =>
        cases hlast
        exact ⟨'u' :: digits, fun _ hin => .unit hl hd hin, rfl, hescape⟩
    | strict =>
        simp only at hescape hlast
        split at hlast
        · cases hlast
        · rename_i htrailing
          simp only [htrailing] at hescape
          split at hlast
          · rename_i hleading
            obtain ⟨second, ht, rfl⟩ := Step.map_eq_ok.1 hlast
            obtain ⟨digits', hl', hd', rfl, hsecond⟩ := trailingUnit_sound ht
            refine ⟨'u' :: (digits ++ '\\' :: 'u' :: digits'), ?_, by simp, fun more => ?_⟩
            · intro more hin
              simpa using Inside.unit hl hd (.unit hl' hd' hin)
            · have hmore := hescape ('\\' :: 'u' :: (digits' ++ more))
              rw [hsecond] at hmore
              simpa [hleading, Step.map, Step.andThen] using hmore
          · rename_i hleading
            cases hlast
            refine ⟨'u' :: digits, fun _ hin => .unit hl hd hin, rfl, fun more => ?_⟩
            simpa [hleading] using hescape more
  case h_1 => cases h
  case h_11 => cases h
  all_goals
    cases h
    refine ⟨[_], fun more hmore => .short ?_ hmore, rfl, fun more => rfl⟩
    decide

theorem textBody_sound (h : textBody reading text = .ok (chars, rest)) :
    ∃ inside, Inside inside ∧ text = inside ++ '"' :: rest ∧
      ∀ more, textBody reading (inside ++ '"' :: more) = .ok (chars, more) := by
  fun_induction textBody reading text generalizing chars rest with
  | case1 => cases h
  | case2 =>
      cases h
      exact ⟨[], .nil, rfl, fun more => by rw [List.nil_append, textBody]⟩
  | case3 => cases h
  | case4 _ _ _ he ih =>
      obtain ⟨_, hb, rfl⟩ := Step.map_eq_ok.1 h
      obtain ⟨escaped, hinside, rfl, hescape⟩ := escape_sound he
      obtain ⟨inside, hin, rfl, hmore⟩ := ih hb
      refine ⟨'\\' :: (escaped ++ inside), hinside inside hin, by simp, fun more => ?_⟩
      rw [List.cons_append, List.append_assoc, textBody_escape (hescape _), hmore]
      rfl
  | case5 => cases h
  | case6 c _ hquote hslash hc ih =>
      obtain ⟨_, hb, rfl⟩ := Step.map_eq_ok.1 h
      obtain ⟨inside, hin, rfl, hmore⟩ := ih hb
      refine ⟨c :: inside, .plain ?_ ?_ hc hin, rfl, fun more => ?_⟩
      · simpa using hquote
      · simpa using hslash
      · rw [List.cons_append, textBody_cons ?_ ?_ hc, hmore]
        · rfl
        · simpa using hquote
        · simpa using hslash

-- Half of a surrogate pair is no obstacle where nobody looks at it.
theorem textBody_skipping {inside : List Char} (h : Inside inside) (more : List Char) :
    ∃ chars, textBody .skipping (inside ++ '"' :: more) = .ok (chars, more) := by
  induction h with
  | nil => exact ⟨[], by rw [List.nil_append, textBody]⟩
  | plain hquote hslash hc _ ih =>
      obtain ⟨chars, hread⟩ := ih
      rw [List.cons_append, textBody_cons hquote hslash hc, hread]
      exact ⟨_, rfl⟩
  | @short c text hc _ ih =>
      obtain ⟨chars, hread⟩ := ih
      obtain ⟨chars', hescape⟩ : ∃ chars', escape .skipping (c :: (text ++ '"' :: more)) =
          .ok (chars', text ++ '"' :: more) := by
        simp only [shortEscapes, List.mem_cons, List.not_mem_nil, or_false] at hc
        rcases hc with rfl | rfl | rfl | rfl | rfl | rfl | rfl | rfl <;> exact ⟨_, rfl⟩
      rw [List.cons_append, List.cons_append, textBody_escape hescape, hread]
      exact ⟨_, rfl⟩
  | @unit digits text hl hd _ ih =>
      obtain ⟨chars, hread⟩ := ih
      obtain ⟨unit, hunit⟩ := codeUnit_complete hl hd (text ++ '"' :: more)
      have hescape : escape .skipping ('u' :: (digits ++ (text ++ '"' :: more))) =
          .ok ([], text ++ '"' :: more) := by
        rw [escape, hunit]
        rfl
      rw [List.cons_append, List.cons_append, List.append_assoc, textBody_escape hescape, hread]
      exact ⟨_, rfl⟩

-- The closing quote is the first that no backslash stands before.
theorem Inside.unique {one other : List Char} (h : Inside one) (hother : Inside other)
    {more more' : List Char} (heq : one ++ '"' :: more = other ++ '"' :: more') :
    one = other ∧ more = more' := by
  obtain ⟨_, hone⟩ := textBody_skipping h more
  obtain ⟨_, htwo⟩ := textBody_skipping hother more'
  rw [heq, htwo, Except.ok.injEq, Prod.mk.injEq] at hone
  obtain ⟨-, rfl⟩ := hone
  exact ⟨List.append_cancel_right heq, rfl⟩

namespace Quoted

-- What the string says, if it says anything.
def read (reading : Reading) (quoted : Quoted) : Option String :=
  match textBody reading (quoted.inside ++ ['"']) with
  | .ok (chars, _) => some (.ofList chars)
  | .error _ => none

-- Half of a surrogate pair is no text.
def text? (quoted : Quoted) : Option String := quoted.read .strict

variable {quoted : Quoted} {name : String}

theorem textBody_of_read (h : quoted.read reading = some name) (more : List Char) :
    textBody reading (quoted.inside ++ '"' :: more) = .ok (name.toList, more) := by
  unfold read at h
  split at h
  · rename_i chars _ hread
    cases h
    obtain ⟨inside, hin, htext, hmore⟩ := textBody_sound hread
    obtain ⟨rfl, -⟩ := quoted.grammatical.unique hin htext
    rw [hmore, String.toList_ofList]
  · cases h

theorem exists_read_skipping (quoted : Quoted) : ∃ name, quoted.read .skipping = some name := by
  obtain ⟨chars, hread⟩ := textBody_skipping quoted.grammatical []
  exact ⟨.ofList chars, by rw [read, hread]⟩

theorem inside_escaped (text : String) : Inside (text.toList.flatMap escapedChar) := by
  obtain ⟨inside, hin, htext, -⟩ := textBody_sound (textBody_flatMap_escapedChar text.toList [])
  rw [List.append_cancel_right htext]
  exact hin

-- The string that says the text.
def ofText (text : String) : Quoted := ⟨text.toList.flatMap escapedChar, inside_escaped text⟩

theorem text?_ofText (text : String) : (ofText text).text? = some text := by
  simp only [text?, read, ofText, textBody_flatMap_escapedChar, String.ofList_toList]

end Quoted

theorem exists_quoted (h : textBody reading text = .ok (chars, rest)) :
    ∃ quoted : Quoted, text = quoted.inside ++ '"' :: rest ∧
      quoted.read reading = some (.ofList chars) := by
  obtain ⟨inside, hin, rfl, hmore⟩ := textBody_sound h
  exact ⟨⟨inside, hin⟩, rfl, by rw [Quoted.read, hmore]⟩

end Text

end LiveReload.Json
