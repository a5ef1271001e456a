import Mathlib.Data.List.Perm.Basic
import RuleLint.Proofs.Image.RoundTrip

namespace RuleLint.Image

open MessagePack (Value)
open Text (Bytes encodeUtf8)

/-! ## Keys -/

inductive Spells : Value → String → Prop
  | text (s : String) : Spells (.text (encodeUtf8 s)) s
  | binary (s : String) : Spells (.binary (encodeUtf8 s)) s

inductive Denotes (names : List String) : Value → String → Prop
  | name {key : Value} {name : String} (spells : Spells key name) (known : name ∈ names) :
      Denotes names key name
  | position {i : Nat} {name : String} (located : names[i]? = some name) :
      Denotes names (.unsigned i) name

inductive Foreign (names : List String) : Value → Prop
  | text {bytes : Bytes} (other : ∀ name ∈ names, encodeUtf8 name ≠ bytes) : Foreign names (.text bytes)
  | binary {bytes : Bytes} (other : ∀ name ∈ names, encodeUtf8 name ≠ bytes) :
      Foreign names (.binary bytes)
  | position {i : Nat} (beyond : names.length ≤ i) : Foreign names (.unsigned i)

variable {names : List String} {name : String} {key v value : Value} {i : Nat}
  {slots slots' : List (Option Value)} {entries entries' : List (Value × Value)}

theorem Spells.bytes? (spells : Spells key name) : key.bytes? = some (encodeUtf8 name) := by
  cases spells <;> rfl

theorem Spells.string? (spells : Spells v name) : v.string? = some name := by
  rw [Value.string?, spells.bytes?]
  exact Text.decodeUtf8?_encodeUtf8 name

theorem fieldPosition?_of_bytes? {bytes : Bytes} (held : key.bytes? = some bytes) :
    fieldPosition? names key = some (names.findIdx? (encodeUtf8 · = bytes)) := by
  cases key <;> simp_all [fieldPosition?, Value.bytes?]

theorem position_unique (distinct : names.Nodup) {j : Nat} (located : names[i]? = some name)
    (located' : names[j]? = some name) : i = j := by
  obtain ⟨inside, -⟩ := List.getElem?_eq_some_iff.mp located
  exact (List.getElem?_inj inside distinct).mp (located.trans located'.symm)

theorem findIdx?_eq_some (distinct : names.Nodup) (located : names[i]? = some name) {bytes : Bytes} :
    names.findIdx? (encodeUtf8 · = bytes) = some i ↔ bytes = encodeUtf8 name := by
  obtain ⟨inside, here⟩ := List.getElem?_eq_some_iff.mp located
  rw [List.findIdx?_eq_some_iff_getElem]
  constructor
  · rintro ⟨_, found, _⟩
    rw [here] at found
    exact (of_decide_eq_true found).symm
  · rintro rfl
    refine ⟨inside, by simp [here], fun j before => ?_⟩
    simp only [decide_eq_true_eq]
    intro same
    have located' : names[j]? = some name := by
      rw [List.getElem?_eq_getElem (Nat.lt_trans before inside), Text.encodeUtf8_injective same]
    exact absurd (position_unique distinct located' located) (Nat.ne_of_lt before)

theorem fieldPosition?_eq_some (distinct : names.Nodup) (located : names[i]? = some name) :
    fieldPosition? names key = some (some i) ↔ Denotes names key name := by
  have known : name ∈ names := List.mem_of_getElem? located
  constructor
  · intro position
    cases key with
    | unsigned n =>
        simp only [fieldPosition?, Option.some.injEq, Option.ite_none_right_eq_some] at position
        exact .position (position.2 ▸ located)
    | text bytes =>
        rw [fieldPosition?_of_bytes? rfl, Option.some.injEq,
          findIdx?_eq_some distinct located] at position
        exact position ▸ .name (.text name) known
    | binary bytes =>
        rw [fieldPosition?_of_bytes? rfl, Option.some.injEq,
          findIdx?_eq_some distinct located] at position
        exact position ▸ .name (.binary name) known
    | _ => simp [fieldPosition?, Value.bytes?] at position
  · rintro (⟨spells, -⟩ | located')
    · rw [fieldPosition?_of_bytes? spells.bytes?, (findIdx?_eq_some distinct located).mpr rfl]
    · obtain ⟨inside, -⟩ := List.getElem?_eq_some_iff.mp located'
      rw [fieldPosition?, if_pos inside, position_unique distinct located located']

theorem fieldPosition?_of_foreign (foreign : Foreign names key) :
    fieldPosition? names key = some none := by
  cases foreign with
  | position beyond => simp [fieldPosition?, beyond]
  | text other => simpa [fieldPosition?, Value.bytes?] using other
  | binary other => simpa [fieldPosition?, Value.bytes?] using other

/-! ## Slots -/

inductive Placed {κ ν : Type} (position : κ → Option (Option Nat)) (entry : κ × ν)
    (slots : List (Option ν)) : List (Option ν) → Prop
  | foreign (other : position entry.1 = some none) : Placed position entry slots slots
  | field {i : Nat} (denotes : position entry.1 = some (some i)) (free : slots[i]? = some none) :
      Placed position entry slots (slots.set i (some entry.2))

section

variable {κ ν : Type} {position : κ → Option (Option Nat)} {entry other : κ × ν}
  {rest before after : List (κ × ν)} {slots middle filled : List (Option ν)} {i : Nat}

theorem fillSlots_cons_eq_some : fillSlots position (entry :: rest) slots = some filled ↔
    ∃ middle, Placed position entry slots middle ∧ fillSlots position rest middle = some filled := by
  obtain ⟨key, value⟩ := entry
  rw [fillSlots]
  constructor
  · intro placed
    cases denotes : position key with
    | none => simp [denotes] at placed
    | some field =>
        cases field with
        | none => exact ⟨slots, .foreign denotes, by simpa [denotes] using placed⟩
        | some i =>
            simp only [denotes, bind, Option.bind] at placed
            split at placed
            · exact ⟨_, .field denotes ‹_›, placed⟩
            · cases placed
  · rintro ⟨middle, placed, goesOn⟩
    cases placed with
    | foreign other => simpa [other] using goesOn
    | field denotes free =>
        simp only at denotes
        simpa [denotes, free] using goesOn

theorem Placed.swap (first : Placed position entry slots middle)
    (second : Placed position other middle filled) :
    ∃ middle', Placed position other slots middle' ∧ Placed position entry middle' filled := by
  cases first with
  | foreign foreign => exact ⟨filled, second, .foreign foreign⟩
  | @field i denotes free =>
      cases second with
      | foreign foreign => exact ⟨slots, .foreign foreign, .field denotes free⟩
      | @field j denotes' free' =>
          have apart : i ≠ j := by
            rintro rfl
            rw [List.getElem?_set_self'] at free'
            cases held : slots[i]? <;> simp [held] at free'
          rw [List.getElem?_set_ne apart] at free'
          refine ⟨_, .field denotes' free', ?_⟩
          rw [List.set_comm _ _ apart]
          exact .field denotes (by rwa [List.getElem?_set_ne apart.symm])

theorem fillSlots_of_perm (order : before.Perm after)
    (fills : fillSlots position before slots = some filled) :
    fillSlots position after slots = some filled := by
  induction order generalizing slots with
  | nil => exact fills
  | cons entry order ih =>
      rw [fillSlots_cons_eq_some] at fills ⊢
      obtain ⟨middle, placed, goesOn⟩ := fills
      exact ⟨middle, placed, ih goesOn⟩
  | swap other entry rest =>
      rw [fillSlots_cons_eq_some] at fills
      obtain ⟨middle, first, fills⟩ := fills
      rw [fillSlots_cons_eq_some] at fills
      obtain ⟨last, second, goesOn⟩ := fills
      obtain ⟨middle', second', first'⟩ := first.swap second
      exact fillSlots_cons_eq_some.mpr
        ⟨middle', second', fillSlots_cons_eq_some.mpr ⟨last, first', goesOn⟩⟩
  | trans order order' ih ih' => exact ih' (ih fills)

theorem Placed.keeps (placed : Placed position entry slots middle) {value : ν}
    (held : slots[i]? = some (some value)) : middle[i]? = some (some value) := by
  cases placed with
  | foreign other => exact held
  | @field j denotes free =>
      have apart : j ≠ i := by
        rintro rfl
        rw [held] at free
        cases free
      rwa [List.getElem?_set_ne apart]

theorem held_of_fillSlots {value : ν} (held : slots[i]? = some (some value))
    (fills : fillSlots position rest slots = some filled) : filled[i]? = some (some value) := by
  induction rest generalizing slots with
  | nil =>
      cases fills
      exact held
  | cons entry rest ih =>
      obtain ⟨middle, placed, goesOn⟩ := fillSlots_cons_eq_some.mp fills
      exact ih (placed.keeps held) goesOn

theorem Placed.fills {value : ν} {key : κ} (placed : Placed position (key, value) slots middle)
    (denotes : position key = some (some i)) : middle[i]? = some (some value) := by
  cases placed with
  | foreign other => simp [denotes] at other
  | field denotes' free =>
      cases denotes.symm.trans denotes'
      exact List.getElem?_set_self (List.getElem?_eq_some_iff.mp free).1

theorem fillSlots_of_mem {key : κ} {value : ν} (member : (key, value) ∈ rest)
    (denotes : position key = some (some i)) (fills : fillSlots position rest slots = some filled) :
    filled[i]? = some (some value) := by
  induction rest generalizing slots with
  | nil => cases member
  | cons entry rest ih =>
      obtain ⟨middle, placed, goesOn⟩ := fillSlots_cons_eq_some.mp fills
      rcases List.mem_cons.mp member with rfl | later
      · exact held_of_fillSlots (placed.fills denotes) goesOn
      · exact ih later goesOn

theorem mem_of_fillSlots {value : ν} (free : slots[i]? = some none)
    (fills : fillSlots position rest slots = some filled) (held : filled[i]? = some (some value)) :
    ∃ entry ∈ rest, position entry.1 = some (some i) := by
  induction rest generalizing slots with
  | nil =>
      cases fills
      simp [held] at free
  | cons entry rest ih =>
      obtain ⟨middle, placed, goesOn⟩ := fillSlots_cons_eq_some.mp fills
      by_cases here : position entry.1 = some (some i)
      · exact ⟨entry, List.mem_cons_self, here⟩
      · have still : middle[i]? = some none := by
          cases placed with
          | foreign other => exact free
          | @field j denotes _ =>
              have apart : j ≠ i := by
                rintro rfl
                exact here denotes
              rwa [List.getElem?_set_ne apart]
        obtain ⟨later, member, denotes⟩ := ih still goesOn
        exact ⟨later, List.mem_cons_of_mem _ member, denotes⟩

theorem not_fillSlots_of_twice {key key' : κ} {value value' : ν}
    (denotes : position key = some (some i)) (denotes' : position key' = some (some i)) :
    fillSlots position ((key, value) :: (key', value') :: rest) slots ≠ some filled := by
  intro fills
  obtain ⟨middle, first, fills⟩ := fillSlots_cons_eq_some.mp fills
  obtain ⟨last, second, -⟩ := fillSlots_cons_eq_some.mp fills
  have held := first.fills denotes
  cases second with
  | foreign other => simp [denotes'] at other
  | field denotes'' free =>
      cases denotes'.symm.trans denotes''
      rw [held] at free
      cases free

end

/-! ## Records -/

inductive Rows (names : List String) :
    List String → List (Option Value) → List (Value × Value) → Prop
  | nil : Rows names [] [] []
  | omitted {name : String} {fields : List String} {slots : List (Option Value)}
      {rows : List (Value × Value)} (others : Rows names fields slots rows) :
      Rows names (name :: fields) (none :: slots) rows
  | given {name : String} {fields : List String} {slots : List (Option Value)}
      {rows : List (Value × Value)} {key value : Value} (denotes : Denotes names key name)
      (others : Rows names fields slots rows) :
      Rows names (name :: fields) (some value :: slots) ((key, value) :: rows)

/-- The values that a record gives to its fields, where it gives any. A map has the entries in any
order, and others between them; an array may end before the last fields. -/
inductive Gives (names : List String) : Value → List (Option Value) → Prop
  | map {slots : List (Option Value)} {rows foreign entries : List (Value × Value)}
      (given : Rows names names slots rows) (others : ∀ entry ∈ foreign, Foreign names entry.1)
      (order : entries.Perm (rows ++ foreign)) : Gives names (.map entries) slots
  | array {items : List Value} (fits : items.length ≤ names.length) :
      Gives names (.array items)
        (items.map some ++ List.replicate (names.length - items.length) none)

inductive Holds (names : List String) (name : String) : Value → Value → Prop
  | entry {entries : List (Value × Value)} {key value : Value} (member : (key, value) ∈ entries)
      (denotes : Denotes names key name) : Holds names name (.map entries) value
  | item {items : List Value} {i : Nat} {value : Value} (located : names[i]? = some name)
      (there : items[i]? = some value) : Holds names name (.array items) value

inductive Repeats (names : List String) : Value → Prop
  | entries {name : String} {entries rest : List (Value × Value)} {key key' value value' : Value}
      (known : name ∈ names) (denotes : Denotes names key name) (denotes' : Denotes names key' name)
      (order : entries.Perm ((key, value) :: (key', value') :: rest)) : Repeats names (.map entries)

theorem fillSlots_foreign {foreign : List (Value × Value)}
    (others : ∀ entry ∈ foreign, Foreign names entry.1) :
    fillSlots (fieldPosition? names) foreign slots = some slots := by
  induction foreign with
  | nil => rfl
  | cons entry foreign ih =>
      rw [List.forall_mem_cons] at others
      exact fillSlots_cons_eq_some.mpr
        ⟨slots, .foreign (fieldPosition?_of_foreign others.1), ih others.2⟩

theorem fillSlots_rows_append (distinct : names.Nodup) {fields : List String}
    {rows foreign : List (Value × Value)} (given : Rows names fields slots rows)
    (others : ∀ entry ∈ foreign, Foreign names entry.1) (earlier : List String)
    (before : List (Option Value)) (all : names = earlier ++ fields)
    (done : before.length = earlier.length) :
    fillSlots (fieldPosition? names) (rows ++ foreign) (before ++ fields.map fun _ => none) =
      some (before ++ slots) := by
  induction given generalizing earlier before with
  | nil => simpa using fillSlots_foreign others
  | @omitted name fields slots rows given ih =>
      have later := ih (earlier ++ [name]) (before ++ [none]) (by simpa using all) (by simp [done])
      simpa using later
  | @given name fields slots rows key value denotes given ih =>
      have later := ih (earlier ++ [name]) (before ++ [some value]) (by simpa using all)
        (by simp [done])
      have located : names[before.length]? = some name := by
        rw [all, done]
        simp
      have position := (fieldPosition?_eq_some distinct located).mpr denotes
      refine fillSlots_cons_eq_some.mpr ⟨_, .field position (by simp), ?_⟩
      simpa using later

theorem fields_of_gives (distinct : names.Nodup) (gives : Gives names v slots) :
    packed.fields names v = some slots := by
  cases gives with
  | map given others order =>
      exact fillSlots_of_perm order.symm (fillSlots_rows_append distinct given others [] [] rfl rfl)
  | array fits => exact if_pos fits

theorem not_fields_of_repeats (distinct : names.Nodup) (repeats : Repeats names v) :
    packed.fields names v = none := by
  obtain ⟨known, denotes, denotes', order⟩ := repeats
  obtain ⟨i, located⟩ := List.getElem?_of_mem known
  rw [Option.eq_none_iff_forall_ne_some]
  intro filled fills
  exact not_fillSlots_of_twice ((fieldPosition?_eq_some distinct located).mpr denotes)
    ((fieldPosition?_eq_some distinct located).mpr denotes') (fillSlots_of_perm order fills)

theorem slot_of_holds (distinct : names.Nodup) (located : names[i]? = some name)
    (fields : packed.fields names v = some slots) (holds : Holds names name v value) :
    slots[i]? = some (some value) := by
  cases holds with
  | entry member denotes =>
      exact fillSlots_of_mem member ((fieldPosition?_eq_some distinct located).mpr denotes) fields
  | item located' there =>
      cases position_unique distinct located located'
      simp only [packed, packedFields?] at fields
      split at fields
      · cases fields
        rw [List.getElem?_append_left (by simpa using (List.getElem?_eq_some_iff.mp there).1)]
        simp [there]
      · cases fields

theorem holds_of_slot (distinct : names.Nodup) (located : names[i]? = some name)
    (fields : packed.fields names v = some slots) (held : slots[i]? = some (some value)) :
    ∃ value, Holds names name v value := by
  cases v with
  | map entries =>
      have free : (names.map fun _ => (none : Option Value))[i]? = some none := by
        rw [List.getElem?_map, located]
        rfl
      obtain ⟨⟨key, value⟩, member, denotes⟩ := mem_of_fillSlots free fields held
      exact ⟨value, .entry member ((fieldPosition?_eq_some distinct located).mp denotes)⟩
  | array items =>
      simp only [packed, packedFields?] at fields
      split at fields
      · cases fields
        by_cases inside : i < items.length
        · exact ⟨items[i], .item located (List.getElem?_eq_getElem inside)⟩
        · rw [List.getElem?_append_right (by simpa using inside), List.getElem?_replicate] at held
          split at held <;> cases held
      · cases fields
  | _ => cases fields

end RuleLint.Image
