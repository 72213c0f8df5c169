import LiveReload.Proofs.Json.Parsing

namespace LiveReload.Json

variable {text rest rest' : List Char} {first : Bool}

@[elab_as_elim]
theorem Tree.induct {motive : Tree → Prop} (null : motive .null)
    (bool : ∀ value, motive (.bool value)) (number : ∀ numeral, motive (.number numeral))
    (string : ∀ quoted, motive (.string quoted))
    (list : ∀ items, (∀ item ∈ items, motive item) → motive (.list items))
    (object : ∀ members, (∀ member ∈ members, motive member.2) → motive (.object members)) :
    ∀ tree, motive tree
  | .null => null
  | .bool value => bool value
  | .number numeral => number numeral
  | .string quoted => string quoted
  | .list items => list items fun item _ => induct null bool number string list object item
  | .object members =>
    object members fun member _ => induct null bool number string list object member.2
termination_by tree => sizeOf tree
decreasing_by
  · have := List.sizeOf_lt_of_mem ‹item ∈ items›
    simp only [Tree.list.sizeOf_spec]
    omega
  · have hsize : sizeOf member = 1 + sizeOf member.1 + sizeOf member.2 := rfl
    have := List.sizeOf_lt_of_mem ‹member ∈ members›
    simp only [Tree.object.sizeOf_spec]
    omega

theorem NumeralText.unique {numeral numeral' : Numeral} (h : NumeralText numeral text rest)
    (h' : NumeralText numeral' text rest') (hrest : Ends rest) (hrest' : Ends rest') :
    numeral = numeral' ∧ rest = rest' := by
  have hread := numeral_complete h hrest
  rw [numeral_complete h' hrest', Except.ok.injEq, Prod.mk.injEq] at hread
  exact ⟨hread.1.symm, hread.2.symm⟩

-- A text that tells the tree tells no other.
def Unambiguous (tree : Tree) : Prop :=
  ∀ ⦃other text rest rest'⦄, Tells tree text rest → Tells other text rest' → Ends rest →
    Ends rest' → tree = other ∧ rest = rest'

theorem Tells.body_unique {tree tree' : Tree} {body body' behind behind' : List Char}
    (h : Tells tree body behind) (h' : Tells tree' body' behind') (hb : Blanks text body)
    (hb' : Blanks text body') : body = body' :=
  (h.dropBlank_eq hb).symm.trans (h'.dropBlank_eq hb')

theorem ListText.unique {items items' : List Tree} (hu : ∀ item ∈ items, Unambiguous item)
    (h : ListText Tells first items text rest) (h' : ListText Tells first items' text rest') :
    items = items' ∧ rest = rest' := by
  induction h generalizing items' rest' with
  | close hclose =>
      cases h' with
      | close hclose' =>
          cases (hclose.dropBlank_eq_cons rfl).symm.trans (hclose'.dropBlank_eq_cons rfl)
          exact ⟨rfl, rfl⟩
      | item hlead hb ht =>
          obtain ⟨_, hnext, -⟩ := nextItem_of_lead hlead hb ht
          cases hnext.symm.trans (nextItem_of_close hclose)
  | @item first item items _ _ _ _ _ hlead hb ht hmore ih =>
      obtain ⟨tail, hnext, htail, -⟩ := nextItem_of_lead hlead hb ht
      cases h' with
      | close hclose' => cases (nextItem_of_close hclose').symm.trans hnext
      | item hlead' hb' ht' hmore' =>
          obtain ⟨tail', hnext', htail', -⟩ := nextItem_of_lead hlead' hb' ht'
          cases hnext.symm.trans hnext'
          cases ht.body_unique ht' htail htail'
          obtain ⟨rfl, rfl⟩ := hu item List.mem_cons_self ht ht' hmore.ends hmore'.ends
          obtain ⟨rfl, rfl⟩ := ih (fun other hm => hu other (List.mem_cons_of_mem item hm)) hmore'
          exact ⟨rfl, rfl⟩

theorem Quoted.eq_of_inside {one other : Quoted} (h : one.inside = other.inside) : one = other := by
  cases one
  cases other
  cases h
  rfl

theorem ObjectText.unique {members members' : List (Quoted × Tree)}
    (hu : ∀ member ∈ members, Unambiguous member.2)
    (h : ObjectText Tells first members text rest)
    (h' : ObjectText Tells first members' text rest') : members = members' ∧ rest = rest' := by
  induction h generalizing members' rest' with
  | close hclose =>
      cases h' with
      | close hclose' =>
          cases (hclose.dropBlank_eq_cons rfl).symm.trans (hclose'.dropBlank_eq_cons rfl)
          exact ⟨rfl, rfl⟩
      | member hlead hkey =>
          cases (nextKey_of_close hclose).symm.trans (nextKey_of_lead hlead hkey)
  | @member first key value members _ _ _ _ _ _ _ hlead hkey hcolon hb ht hmore ih =>
      cases h' with
      | close hclose' => cases (nextKey_of_close hclose').symm.trans (nextKey_of_lead hlead hkey)
      | @member _ key' _ _ _ _ _ _ _ _ _ hlead' hkey' hcolon' hb' ht' hmore' =>
          have hnext := (nextKey_of_lead hlead hkey).symm.trans (nextKey_of_lead hlead' hkey')
          simp only [Except.ok.injEq, Place.item.injEq] at hnext
          obtain ⟨hinside, rfl⟩ := key.grammatical.unique key'.grammatical hnext
          cases Quoted.eq_of_inside hinside
          cases (colon_complete hcolon).symm.trans (colon_complete hcolon')
          cases ht.body_unique ht' hb hb'
          obtain ⟨hvalue, rfl⟩ := hu (key, value) List.mem_cons_self ht ht' hmore.ends hmore'.ends
          cases hvalue
          obtain ⟨rfl, rfl⟩ := ih (fun other hm => hu other (List.mem_cons_of_mem _ hm)) hmore'
          exact ⟨rfl, rfl⟩

theorem unambiguous (tree : Tree) : Unambiguous tree := by
  intro other text rest rest' h h' hrest hrest'
  induction tree using Tree.induct generalizing other text rest rest' with
  | null =>
      cases h
      cases h' with
      | null => exact ⟨rfl, rfl⟩
      | number hn => exact absurd hn.starts (by decide)
  | bool value =>
      cases h with
      | yes =>
          cases h' with
          | yes => exact ⟨rfl, rfl⟩
          | number hn => exact absurd hn.starts (by decide)
      | no =>
          cases h' with
          | no => exact ⟨rfl, rfl⟩
          | number hn => exact absurd hn.starts (by decide)
  | number numeral =>
      cases h with
      | number hn =>
          cases h' with
          | number hn' =>
              obtain ⟨rfl, rfl⟩ := hn.unique hn' hrest hrest'
              exact ⟨rfl, rfl⟩
          | _ => exact absurd hn.starts (by decide)
  | string quoted =>
      cases h
      generalize htext : '"' :: (quoted.inside ++ '"' :: rest) = text at h'
      cases h' with
      | string quoted' =>
          obtain ⟨hinside, rfl⟩ :=
            quoted.grammatical.unique quoted'.grammatical (List.cons.inj htext).2
          exact ⟨congrArg Tree.string (Quoted.eq_of_inside hinside), rfl⟩
      | number hn =>
          rw [← htext] at hn
          exact absurd hn.starts (by decide)
      | _ => cases htext
  | list items ih =>
      cases h with
      | list hitems =>
          cases h' with
          | list hitems' =>
              obtain ⟨rfl, rfl⟩ := hitems.unique (fun item hm => @ih item hm) hitems'
              exact ⟨rfl, rfl⟩
          | number hn => exact absurd hn.starts (by decide)
  | object members ih =>
      cases h with
      | object hmembers =>
          cases h' with
          | object hmembers' =>
              obtain ⟨rfl, rfl⟩ := hmembers.unique (fun member hm => @ih member hm) hmembers'
              exact ⟨rfl, rfl⟩
          | number hn => exact absurd hn.starts (by decide)

end LiveReload.Json
