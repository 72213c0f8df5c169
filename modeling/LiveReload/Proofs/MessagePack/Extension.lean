import LiveReload.Proofs.MessagePack

namespace LiveReload.MessagePack

open Wire (Value)

variable {α β : Type}

-- Bytes behind those that are read change nothing but the rest.
def Extensible (step : List UInt8 → Step α) : Prop :=
  ∀ ⦃bytes value rest⦄, step bytes = some (value, rest) →
    ∀ more, step (bytes ++ more) = some (value, rest ++ more)

namespace Extensible

section Sequencing

variable {step : List UInt8 → Step α} {next : α → List UInt8 → Step β}

theorem pure (value : α) : Extensible fun bytes => some (value, bytes) := by
  intro bytes read rest h more
  cases h
  rfl

theorem bind (h : Extensible step) (hnext : ∀ value, Extensible (next value)) :
    Extensible fun bytes => (step bytes).bind fun read => next read.1 read.2 := by
  intro bytes value rest hread more
  obtain ⟨⟨first, tail⟩, hfirst, hlast⟩ := Option.bind_eq_some_iff.1 hread
  simp only [h hfirst more, Option.bind_some]
  exact hnext first hlast more

theorem map (h : Extensible step) (f : α → β) :
    Extensible fun bytes => (step bytes).map fun read => (f read.1, read.2) := by
  intro bytes value rest hread more
  obtain ⟨⟨first, tail⟩, hfirst, hlast⟩ := Option.map_eq_some_iff.1 hread
  cases hlast
  simp only [h hfirst more, Option.map_some]

end Sequencing

section Bytes

theorem take (count : Nat) : Extensible (take count) := by
  induction count with
  | zero => exact pure []
  | succ count ih =>
      intro bytes value rest h more
      cases bytes with
      | nil => cases h
      | cons byte bytes => exact ih.map (byte :: ·) h more

theorem natural (width : Nat) : Extensible (natural width) := (take width).map ofBigEndian

theorem integer (width : Nat) : Extensible (integer width) :=
  (natural width).map fun n =>
    if 2 * n < 1 <<< (8 * width) then (n : Int) else n - (1 <<< (8 * width) : Nat)

theorem fixedText (length : Nat) : Extensible (fixedText length) := (take length).map textOrBytes

theorem sized (width : Nat) (make : List UInt8 → Value) : Extensible (sized width make) :=
  (natural width).bind fun length => (take length).map make

theorem extension (length : Nat) : Extensible (extension length) :=
  (take 1).bind fun type => (take length).map (Value.extension (type.headD 0))

end Bytes

section Containers

variable {item : List UInt8 → Step Value}

theorem items (h : Extensible item) (count : Nat) : Extensible (items item count) := by
  induction count with
  | zero => exact pure []
  | succ count ih => exact h.bind fun value => ih.map (value :: ·)

theorem entries (h : Extensible item) (count : Nat) : Extensible (entries item count) := by
  induction count with
  | zero => exact pure []
  | succ count ih => exact h.bind fun key => h.bind fun value => ih.map ((key, value) :: ·)

theorem listValue (h : Extensible item) (count : Nat) : Extensible (list item count) :=
  (h.items count).map Value.list

theorem mapValue (h : Extensible item) (count : Nat) : Extensible (MessagePack.map item count) :=
  (h.entries count).map Value.map

-- What needs a reader for the inside of a container.
theorem inside {inner : Option (List UInt8 → Step Value)}
    {next : (List UInt8 → Step Value) → List UInt8 → Step Value}
    (h : ∀ item, inner = some item → Extensible (next item)) :
    Extensible fun bytes => inner.bind fun item => next item bytes := by
  intro bytes value rest hread more
  obtain ⟨item, hitem, hlast⟩ := Option.bind_eq_some_iff.1 hread
  simp only [hitem, Option.bind_some]
  exact h item hitem hlast more

end Containers

section Values

theorem body {inner : Option (List UInt8 → Step Value)}
    (h : ∀ item, inner = some item → Extensible item) : Extensible (body inner) := by
  have hlist (count : Nat) : Extensible fun bytes => inner.bind fun item => list item count bytes :=
    inside fun item hitem => (h item hitem).listValue count
  have hmap (count : Nat) :
      Extensible fun bytes => inner.bind fun item => MessagePack.map item count bytes :=
    inside fun item hitem => (h item hitem).mapValue count
  intro bytes value rest hread more
  cases bytes with
  | nil => cases hread
  | cons marker bytes =>
      simp only [MessagePack.body, List.cons_append] at hread ⊢
      split_ifs at hread ⊢
      · exact pure _ hread more
      · exact hmap _ hread more
      · exact hlist _ hread more
      · exact fixedText _ hread more
      · exact pure _ hread more
      · generalize marker.toNat = code at *
        split at hread
        -- a line for each way to go on behind a marker
        any_goals exact pure _ hread more
        any_goals exact sized _ _ hread more
        any_goals exact (natural _).map (Value.unsigned _) hread more
        any_goals exact (integer _).map Value.signed hread more
        any_goals
          exact ((natural 4).map fun bits => Value.float (Float32.ofBits (.ofNat bits)).toFloat)
            hread more
        any_goals
          exact ((natural 8).map fun bits => Value.float (Float.ofBits (.ofNat bits))) hread more
        any_goals exact inside (fun _ _ => extension _) hread more
        any_goals exact inside (fun _ _ => (natural _).bind extension) hread more
        any_goals
          exact inside (fun item hitem => (natural _).bind (h item hitem).listValue) hread more
        any_goals
          exact inside (fun item hitem => (natural _).bind (h item hitem).mapValue) hread more
        cases hread

theorem value (depth : Nat) : Extensible (value depth) := by
  induction depth with
  | zero => exact body nofun
  | succ depth ih => exact body fun item hitem => Option.some.inj hitem ▸ ih

end Values

end Extensible

theorem Decodes.eq_none {item : List UInt8 → Step Value} {bytes part : List UInt8} {value : Value}
    (h : Decodes item bytes value) (hitem : Extensible item) (hpart : part <+: bytes)
    (hne : part ≠ bytes) : item part = none := by
  obtain ⟨more, rfl⟩ := hpart
  cases hread : item part with
  | none => rfl
  | some read =>
      -- the rest of the whole is empty, so nothing is missing
      have hwhole := h []
      rw [List.append_nil, hitem hread more, Option.some.injEq, Prod.mk.injEq] at hwhole
      have hmore : more = [] := (List.append_eq_nil_iff.1 hwhole.2).2
      rw [hmore, List.append_nil] at hne
      exact absurd rfl hne

end LiveReload.MessagePack
