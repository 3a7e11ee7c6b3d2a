import KuzuEventBus.Lib.HashMap
import KuzuEventBus.Lib.Runs

/-!
# Relation values of entities

`casys_db/orm.py` of the Python SDK: the values of a relation are kept by its descriptor, in one
dictionary for all entities, under the `id()` of the entity.  The id of an entity that is gone can
be the id of a later one, and no entry is ever removed.

The relations that the class of an entity declares itself are looked up in its `_relations`; those
of its base classes are not there, so what is written to them goes to `_properties`, and what is
read is found by the attribute lookup of Python.

## Main definitions

* `Schema` — the descriptors of the classes.
* `Heap` — the entities that are alive, and the caches.
* `getAttribute`, `setAttribute`, `create` — `__getattribute__`, `__setattr__`, `__init__`.
* `Owned` — relation values as they are meant: of each entity.
* `Faithful` — what is read of an entity is its own.
* `Untouched` — what a creation must find in the caches.

## Main results

* `answer_getAttribute` — what a read of an entity answers.
* `faithful_step_iff` — only a creation can go wrong, when it finds entries under its id.
* `always_faithful_iff` — **relation values belong to their instance in exactly the runs in which
  every creation finds the caches untouched.**
-/

namespace KuzuEventBus.Sdk.Relations

/-- An object: one that a caller writes, or the list that a read makes. -/
inductive Obj where
  | value (n : ℕ)
  | list (n : ℕ)
  deriving DecidableEq

/-- The descriptors of the entity classes. -/
structure Schema (Class Desc : Type) where
  /-- `_relations`: what a class declares itself. -/
  relations : Class → String → Option Desc
  /-- What the base classes of a class declare. -/
  inherited : Class → String → Option Desc
  /-- Each relation of a class has a descriptor of its own. -/
  distinct : ∀ c r r' d, (relations c r).or (inherited c r) = some d →
    (relations c r').or (inherited c r') = some d → r = r'

section
variable {Class Desc : Type}

/-- The descriptor that attribute lookup finds on a class. -/
def Schema.attribute (schema : Schema Class Desc) (c : Class) (r : String) : Option Desc :=
  (schema.relations c r).or (schema.inherited c r)

/-- Where the constructor of a class puts a value for a relation: in the cache of the descriptor
that the class declares, -/
def Schema.cacheKey (schema : Schema Class Desc) (c : Class) (id : ℕ) (r : String) :
    Option (Desc × ℕ) :=
  (schema.relations c r).map fun d => (d, id)

/-- or in `_properties` if there is none. -/
def Schema.propertyKey (schema : Schema Class Desc) (c : Class) (r : String) : Option String :=
  if (schema.relations c r).isSome then none else some r

/-- `name.startswith('_')`. -/
def isPrivate (name : String) : Bool := name.toList.head? = some '_'

/-- A live entity: its class, and what `_properties` holds under the names of relations. -/
structure Entity (Class : Type) where
  cls : Class
  properties : HashMap String Obj

/-- The live entities by their `id()`, the `_cache` of every descriptor, and how many lists reads
have made. -/
structure Heap (Class Desc : Type) where
  live : HashMap ℕ (Entity Class)
  caches : HashMap (Desc × ℕ) Obj
  lists : ℕ

/-! ### The ORM -/

variable [DecidableEq Desc] (schema : Schema Class Desc)

namespace Heap

/-- `RelationDescriptor.__get__`: the cached value, or a new list, which is cached. -/
def get (h : Heap Class Desc) (id : ℕ) (d : Desc) : Obj × Heap Class Desc :=
  match h.caches.lookup (d, id) with
  | some v => (v, h)
  | none => (.list h.lists,
      { h with caches := h.caches.insert (d, id) (.list h.lists), lists := h.lists + 1 })

/-- `RelationDescriptor.__set__`. -/
def set (h : Heap Class Desc) (id : ℕ) (v : Obj) (d : Desc) : Heap Class Desc :=
  { h with caches := h.caches.insert (d, id) v }

/-- `NodeEntity.__getattribute__` of a relation; the name is one that no object has. -/
def getAttribute (h : Heap Class Desc) (id : ℕ) (e : Entity Class) (r : String) :
    Option (Obj × Heap Class Desc) :=
  if isPrivate r then (schema.attribute e.cls r).map (h.get id)
  else
    match schema.relations e.cls r with
    | some d => some (h.get id d)
    | none =>
      match e.properties.lookup r with
      | some v => some (v, h)
      | none => (schema.inherited e.cls r).map (h.get id)

/-- `NodeEntity.__setattr__` of a relation. -/
def setAttribute (h : Heap Class Desc) (id : ℕ) (e : Entity Class) (r : String) (v : Obj) :
    Heap Class Desc :=
  if isPrivate r then ((schema.attribute e.cls r).map (h.set id v)).getD h
  else
    match schema.relations e.cls r with
    | some d => h.set id v d
    | none => { h with live := h.live.insert id { e with properties := e.properties.insert r v } }

/-- `NodeEntity.__init__`: a value for a relation that the class declares goes to the descriptor,
any other to `_properties`. -/
def create (h : Heap Class Desc) (id : ℕ) (c : Class) (kwargs : HashMap String Obj) :
    Heap Class Desc :=
  { h with
    live := h.live.insert id ⟨c, (∅ : HashMap String Obj).insertAll (kwargs.toPairs.filterMap
      fun kv => (schema.propertyKey c kv.1).map fun r => (r, kv.2))⟩
    caches := h.caches.insertAll (kwargs.toPairs.filterMap
      fun kv => (schema.cacheKey c id kv.1).map fun k => (k, kv.2)) }

/-- The entity is gone; its entries in the caches are not. -/
def destroy (h : Heap Class Desc) (id : ℕ) : Heap Class Desc := { h with live := h.live.erase id }

/-- What a read of a relation finds, if it does not make a list. -/
def peek (h : Heap Class Desc) (id : ℕ) (e : Entity Class) (r : String) (d : Desc) : Option Obj :=
  if isPrivate r || (schema.relations e.cls r).isSome then h.caches.lookup (d, id)
  else (e.properties.lookup r).or (h.caches.lookup (d, id))

theorem get_fst (h : Heap Class Desc) (id : ℕ) (d : Desc) :
    (h.get id d).1 = (h.caches.lookup (d, id)).getD (.list h.lists) := by
  unfold get
  cases h.caches.lookup (d, id) <;> rfl

variable {schema}

/-- **What a read of an entity answers**: what it finds, or a new list. -/
theorem answer_getAttribute {h : Heap Class Desc} {id : ℕ} {e : Entity Class} {r : String}
    {d : Desc} (hd : schema.attribute e.cls r = some d) :
    (h.getAttribute schema id e r).map Prod.fst =
      some ((h.peek schema id e r d).getD (.list h.lists)) := by
  unfold getAttribute peek
  by_cases hprivate : isPrivate r = true
  · rw [if_pos hprivate, hprivate, hd, Bool.true_or, if_pos rfl, ← get_fst]
    rfl
  · rw [if_neg hprivate, Bool.eq_false_iff.mpr hprivate, Bool.false_or]
    unfold Schema.attribute at hd
    cases hown : schema.relations e.cls r with
    | some d' =>
      rw [hown, Option.some_or] at hd
      obtain rfl := Option.some.inj hd
      rw [Option.isSome_some, if_pos rfl, ← get_fst]
      rfl
    | none =>
      rw [hown, Option.none_or] at hd
      rw [Option.isSome_none, if_neg Bool.false_ne_true, hd]
      cases e.properties.lookup r with
      | some v => rfl
      | none => rw [Option.none_or, ← get_fst]; rfl

/-- An entry of a cache under another id or of another descriptor is not looked at. -/
theorem peek_congr {h h' : Heap Class Desc} {id : ℕ} {e : Entity Class} {r : String} {d : Desc}
    (hcaches : h'.caches.lookup (d, id) = h.caches.lookup (d, id)) :
    h'.peek schema id e r d = h.peek schema id e r d := by
  unfold peek
  rw [hcaches]

/-- What is found after an entry is made where a read would have made a list. -/
theorem peek_of_lookup {h h' : Heap Class Desc} {id : ℕ} {e : Entity Class} {r : String} {d : Desc}
    {v : Obj} (hnone : h.peek schema id e r d = none)
    (hcaches : h'.caches.lookup (d, id) = some v) : h'.peek schema id e r d = some v := by
  unfold peek at hnone ⊢
  split at hnone
  · next hplace => rw [if_pos hplace, hcaches]
  · next hplace =>
    rw [Option.or_eq_none_iff] at hnone
    rw [if_neg hplace, hnone.1, Option.none_or, hcaches]

/-- The heap after a read: a list was made and cached if nothing was found. -/
theorem heap_getAttribute {h : Heap Class Desc} {id : ℕ} {e : Entity Class} {r : String} {d : Desc}
    (hd : schema.attribute e.cls r = some d) : (h.getAttribute schema id e r).map Prod.snd =
      some (match h.peek schema id e r d with
        | some _ => h
        | none => { h with
          caches := h.caches.insert (d, id) (.list h.lists), lists := h.lists + 1 }) := by
  have hget (hplace : h.peek schema id e r d = h.caches.lookup (d, id)) : (h.get id d).2 =
      match h.peek schema id e r d with
      | some _ => h
      | none => { h with
        caches := h.caches.insert (d, id) (.list h.lists), lists := h.lists + 1 } := by
    rw [hplace, get]
    cases h.caches.lookup (d, id) <;> rfl
  unfold getAttribute
  by_cases hprivate : isPrivate r = true
  · have hplace : h.peek schema id e r d = h.caches.lookup (d, id) := by
      rw [peek, hprivate, Bool.true_or, if_pos rfl]
    rw [if_pos hprivate, hd, ← hget hplace]
    rfl
  · rw [if_neg hprivate]
    cases hown : schema.relations e.cls r with
    | some d' =>
      have hplace : h.peek schema id e r d = h.caches.lookup (d, id) := by
        rw [peek, hown, Option.isSome_some, Bool.or_true, if_pos rfl]
      have hd' := hd
      rw [Schema.attribute, hown, Option.some_or] at hd'
      obtain rfl := Option.some.inj hd'
      rw [← hget hplace]
      rfl
    | none =>
      have hd' := hd
      rw [Schema.attribute, hown, Option.none_or] at hd'
      have hpeek : h.peek schema id e r d =
          (e.properties.lookup r).or (h.caches.lookup (d, id)) := by
        rw [peek, hown, Option.isSome_none, Bool.or_false, if_neg hprivate]
      rw [hd']
      cases hprop : e.properties.lookup r with
      | some v =>
        rw [hpeek, hprop, Option.some_or]
        rfl
      | none =>
        rw [hprop, Option.none_or] at hpeek
        rw [← hget hpeek]
        rfl

/-- **A write is found by the reads of the relation that was written, and by no others.** -/
theorem peek_setAttribute {h : Heap Class Desc} {id : ℕ} {e : Entity Class} {r : String} {d : Desc}
    {v : Obj} (hlive : h.live.lookup id = some e) (hd : schema.attribute e.cls r = some d)
    {id' : ℕ} {e' : Entity Class}
    (hlive' : (h.setAttribute schema id e r v).live.lookup id' = some e') :
    ∃ e₀, h.live.lookup id' = some e₀ ∧ e₀.cls = e'.cls ∧
      ∀ r' d', schema.attribute e'.cls r' = some d' →
        (h.setAttribute schema id e r v).peek schema id' e' r' d' =
          if id' = id ∧ r' = r then some v else h.peek schema id' e₀ r' d' := by
  by_cases hplace : isPrivate r || (schema.relations e.cls r).isSome
  · -- the value goes to the cache
    have hset : h.setAttribute schema id e r v = h.set id v d := by
      unfold setAttribute
      by_cases hprivate : isPrivate r = true
      · rw [if_pos hprivate, hd]
        rfl
      · rw [Bool.eq_false_iff.mpr hprivate, Bool.false_or] at hplace
        obtain ⟨d', hown⟩ := Option.isSome_iff_exists.mp hplace
        rw [Schema.attribute, hown, Option.some_or] at hd
        obtain rfl := Option.some.inj hd
        rw [if_neg hprivate, hown]
    rw [hset] at hlive' ⊢
    refine ⟨e', hlive', rfl, fun r' d' hd' => ?_⟩
    by_cases hsame : id' = id ∧ r' = r
    · obtain ⟨rfl, rfl⟩ := hsame
      obtain rfl := Option.some.inj (hlive.symm.trans hlive')
      obtain rfl := Option.some.inj (hd.symm.trans hd')
      rw [if_pos ⟨rfl, rfl⟩, peek, if_pos hplace]
      exact AList.lookup_insert _
    · rw [if_neg hsame]
      refine peek_congr (AList.lookup_insert_ne fun hkey => hsame ?_)
      obtain ⟨rfl, rfl⟩ := Prod.mk.inj hkey
      obtain rfl := Option.some.inj (hlive.symm.trans hlive')
      exact ⟨rfl, schema.distinct _ _ _ _ hd' hd⟩
  · -- the value goes to the properties of the entity
    rw [Bool.or_eq_true, not_or] at hplace
    have hown : schema.relations e.cls r = none := by
      simpa using hplace.2
    have hset : h.setAttribute schema id e r v =
        { h with live := h.live.insert id { e with properties := e.properties.insert r v } } := by
      unfold setAttribute
      rw [if_neg hplace.1, hown]
    rw [hset] at hlive' ⊢
    dsimp only at hlive'
    rw [AList.lookup_insert_eq] at hlive'
    by_cases hid : id' = id
    · subst hid
      rw [if_pos rfl] at hlive'
      obtain rfl := Option.some.inj hlive'
      refine ⟨e, hlive, rfl, fun r' d' hd' => ?_⟩
      by_cases hr : r' = r
      · subst hr
        rw [if_pos ⟨rfl, rfl⟩, peek, if_neg (by simp [hplace.1, hown])]
        dsimp only
        rw [AList.lookup_insert, Option.some_or]
      · rw [if_neg fun hsame => hr hsame.2]
        unfold peek
        dsimp only
        rw [AList.lookup_insert_ne hr]
    · rw [if_neg hid] at hlive'
      refine ⟨e', hlive', rfl, fun r' d' _ => ?_⟩
      rw [if_neg fun hsame => hid hsame.1]
      rfl

/-- What a creation leaves to be found: the values it was given, or what the cache had. -/
theorem peek_create {h : Heap Class Desc} {id : ℕ} {c : Class} {kwargs : HashMap String Obj}
    {e : Entity Class} (hlive : (h.create schema id c kwargs).live.lookup id = some e) :
    e.cls = c ∧ ∀ r d, schema.attribute c r = some d →
      (h.create schema id c kwargs).peek schema id e r d =
        if isPrivate r ∧ schema.relations c r = none then h.caches.lookup (d, id)
        else (kwargs.lookup r).or (h.caches.lookup (d, id)) := by
  unfold create at hlive
  dsimp only at hlive
  rw [AList.lookup_insert] at hlive
  obtain rfl := Option.some.inj hlive
  refine ⟨rfl, fun r d hd => ?_⟩
  have hinj : ∀ r₁ r₂ k, schema.cacheKey c id r₁ = some k → schema.cacheKey c id r₂ = some k →
      r₁ = r₂ := by
    intro r₁ r₂ k h₁ h₂
    obtain ⟨d₁, hd₁, rfl⟩ := Option.map_eq_some_iff.mp h₁
    obtain ⟨d₂, hd₂, heq⟩ := Option.map_eq_some_iff.mp h₂
    obtain ⟨rfl, -⟩ := Prod.mk.inj heq
    exact schema.distinct c r₁ r₂ d₂ (by rw [hd₁, Option.some_or]) (by rw [hd₂, Option.some_or])
  cases hown : schema.relations c r with
  | some d' =>
    have hd' := hd
    rw [Schema.attribute, hown, Option.some_or] at hd'
    obtain rfl := Option.some.inj hd'
    rw [if_neg (fun hno => nomatch hno.2), peek, hown, Option.isSome_some, Bool.or_true, if_pos rfl]
    exact AList.lookup_insertAll_filterMap hinj _ _ (by rw [Schema.cacheKey, hown]; rfl)
  | none =>
    -- the creation does not reach the cache of what a base class declares
    have hcache : (h.create schema id c kwargs).caches.lookup (d, id) =
        h.caches.lookup (d, id) := by
      apply AList.lookup_insertAll_of_notMem
      intro kv hkv hkey
      obtain ⟨⟨r', v⟩, -, hmap⟩ := List.mem_filterMap.mp hkv
      obtain ⟨k, hk, rfl⟩ := Option.map_eq_some_iff.mp hmap
      obtain ⟨d', hd', rfl⟩ := Option.map_eq_some_iff.mp hk
      obtain ⟨rfl, -⟩ := Prod.mk.inj hkey
      have hr := schema.distinct c r' r d' (by rw [hd', Option.some_or]) hd
      rw [hr, hown] at hd'
      cases hd'
    have hkey : schema.propertyKey c r = some r := by
      rw [Schema.propertyKey, hown, Option.isSome_none, if_neg Bool.false_ne_true]
    have hprops : (((∅ : HashMap String Obj).insertAll (kwargs.toPairs.filterMap fun kv =>
        (schema.propertyKey c kv.1).map fun r => (r, kv.2))).lookup r) = kwargs.lookup r := by
      rw [AList.lookup_insertAll_filterMap (fun r₁ r₂ r₃ h₁ h₂ => ?_) _ _ hkey, AList.lookup_empty,
        Option.or_none]
      unfold Schema.propertyKey at h₁ h₂
      rw [Option.ite_none_left_eq_some] at h₁ h₂
      exact Option.some.inj (h₁.2.trans h₂.2.symm)
    rw [peek, hcache]
    dsimp only
    rw [hprops, hown, Option.isSome_none, Bool.or_false]
    simp

/-- A creation leaves the other entities alone. -/
theorem peek_create_of_ne {h : Heap Class Desc} {id id' : ℕ} {c : Class}
    {kwargs : HashMap String Obj} (hne : id' ≠ id) :
    (h.create schema id c kwargs).live.lookup id' = h.live.lookup id' ∧
      ∀ e r d, (h.create schema id c kwargs).peek schema id' e r d = h.peek schema id' e r d := by
  refine ⟨AList.lookup_insert_ne hne, fun e r d => peek_congr ?_⟩
  apply AList.lookup_insertAll_of_notMem
  intro kv hkv hkey
  obtain ⟨kv', -, hmap⟩ := List.mem_filterMap.mp hkv
  obtain ⟨k, hk, rfl⟩ := Option.map_eq_some_iff.mp hmap
  obtain ⟨d', -, rfl⟩ := Option.map_eq_some_iff.mp hk
  exact hne (Prod.mk.inj hkey).2.symm

end Heap

/-! ### What belongs to an entity -/

/-- The relation values of each live entity, as they are meant. -/
abbrev Owned := HashMap ℕ (HashMap String Obj)

/-- The value of a relation of an entity, if there is one. -/
def Owned.find (own : Owned) (id : ℕ) (r : String) : Option Obj := (own.lookup id).bind (·.lookup r)

/-- The entity has the value from now on. -/
def Owned.put (own : Owned) (id : ℕ) (r : String) (v : Obj) : Owned :=
  own.insert id (((own.lookup id).getD ∅).insert r v)

theorem Owned.find_put (own : Owned) (id id' : ℕ) (r r' : String) (v : Obj) :
    (own.put id r v).find id' r' = if id' = id ∧ r' = r then some v else own.find id' r' := by
  unfold Owned.put Owned.find
  rw [AList.lookup_insert_eq]
  by_cases hid : id' = id
  · subst hid
    rw [if_pos rfl, Option.bind_some, AList.lookup_insert_eq]
    by_cases hr : r' = r
    · rw [if_pos hr, if_pos ⟨rfl, hr⟩]
    · rw [if_neg hr, if_neg fun h => hr h.2]
      cases own.lookup id' <;> rfl
  · rw [if_neg hid, if_neg fun h => hid h.1]

/-- The heap, and what belongs to the entities in it. -/
structure State (Class Desc : Type) where
  heap : Heap Class Desc
  own : Owned

/-- No entity has been created. -/
def init : State Class Desc := ⟨⟨∅, ∅, 0⟩, ∅⟩

/-- What a program does with entities; `id()` gives a creation an id that no live entity has. -/
inductive Action (Class : Type) where
  | create (id : ℕ) (c : Class) (kwargs : HashMap String Obj)
  | destroy (id : ℕ)
  | write (id : ℕ) (r : String) (v : Obj)
  | read (id : ℕ) (r : String)

/-- One step of a program.  A list that a read makes belongs to the entity from then on. -/
def step (s : State Class Desc) : Action Class → Option (State Class Desc)
  | .create id c kwargs =>
    if s.heap.live.lookup id = none then
      some ⟨s.heap.create schema id c kwargs, s.own.insert id kwargs⟩
    else none
  | .destroy id => (s.heap.live.lookup id).map fun _ => ⟨s.heap.destroy id, s.own.erase id⟩
  | .write id r v => do
    let e ← s.heap.live.lookup id
    let _ ← schema.attribute e.cls r
    pure ⟨s.heap.setAttribute schema id e r v, s.own.put id r v⟩
  | .read id r => do
    let e ← s.heap.live.lookup id
    let _ ← schema.attribute e.cls r
    let (_, heap) ← s.heap.getAttribute schema id e r
    pure ⟨heap, if (s.own.find id r).isSome then s.own else s.own.put id r (.list s.heap.lists)⟩

/-- **What a read finds is what belongs to the entity**: the value that was written last, or the
list that the first read made, and nothing if there is neither. -/
def Faithful (s : State Class Desc) : Prop :=
  ∀ id e, s.heap.live.lookup id = some e → ∀ r d, schema.attribute e.cls r = some d →
    s.heap.peek schema id e r d = s.own.find id r

/-- A creation finds no entry under its id for a relation that it gives no value, and none that
differs from the value that it gives to a private relation of a base class. -/
def Untouched (s : State Class Desc) : Action Class → State Class Desc → Prop
  | .create id c kwargs, _ => ∀ r d, schema.attribute c r = some d →
      if isPrivate r ∧ schema.relations c r = none then
        s.heap.caches.lookup (d, id) = kwargs.lookup r
      else kwargs.lookup r = none → s.heap.caches.lookup (d, id) = none
  | .destroy _, _ | .write .., _ | .read .., _ => True

/-! ### Steps and runs -/

variable {schema} {s s' : State Class Desc}

theorem Owned.find_insert (own : Owned) (id id' : ℕ) (kwargs : HashMap String Obj) (r : String) :
    Owned.find (own.insert id kwargs) id' r =
      if id' = id then kwargs.lookup r else own.find id' r := by
  unfold Owned.find
  rw [AList.lookup_insert_eq]
  split <;> rfl

theorem or_eq_left_iff {α : Type} {o o' : Option α} : o.or o' = o ↔ (o = none → o' = none) := by
  cases o <;> simp

/-- After a creation everything is as it should be if the caches were untouched. -/
theorem faithful_create_iff (h : Faithful schema s) {id : ℕ} {c : Class}
    {kwargs : HashMap String Obj} :
    Faithful schema ⟨s.heap.create schema id c kwargs, s.own.insert id kwargs⟩ ↔
      Untouched schema s (.create id c kwargs) s := by
  unfold Untouched
  have hnew : (s.heap.create schema id c kwargs).live.lookup id = some _ := AList.lookup_insert _
  obtain ⟨hcls, hpeek⟩ := Heap.peek_create hnew
  constructor
  · intro hfaithful r d hd
    have hown := hfaithful id _ hnew r d (by rw [hcls]; exact hd)
    dsimp only at hown
    rw [hpeek r d hd, Owned.find_insert, if_pos rfl] at hown
    split at hown
    · next hplace => rw [if_pos hplace]; exact hown
    · next hplace => rw [if_neg hplace]; exact or_eq_left_iff.mp hown
  · intro huntouched id' e hlive r d hd
    dsimp only at hlive ⊢
    rw [Owned.find_insert]
    by_cases hid : id' = id
    · subst hid
      obtain ⟨rfl, hpeek⟩ := Heap.peek_create hlive
      rw [hpeek r d hd, if_pos rfl]
      have hplace := huntouched r d hd
      split at hplace
      · next hprivate => rw [if_pos hprivate]; exact hplace
      · next hprivate => rw [if_neg hprivate]; exact or_eq_left_iff.mpr hplace
    · obtain ⟨hsame, hpeek⟩ : (s.heap.create schema id c kwargs).live.lookup id' =
          s.heap.live.lookup id' ∧ ∀ e r d,
            (s.heap.create schema id c kwargs).peek schema id' e r d =
              s.heap.peek schema id' e r d := Heap.peek_create_of_ne hid
      rw [hsame] at hlive
      rw [hpeek, if_neg hid]
      exact h id' e hlive r d hd

theorem Faithful.write (h : Faithful schema s) {id : ℕ} {e : Entity Class} {r : String} {d : Desc}
    (hlive : s.heap.live.lookup id = some e) (hd : schema.attribute e.cls r = some d) (v : Obj) :
    Faithful schema ⟨s.heap.setAttribute schema id e r v, s.own.put id r v⟩ := by
  intro id' e' hlive' r' d' hd'
  obtain ⟨e₀, hlive₀, hcls, hpeek⟩ := Heap.peek_setAttribute hlive hd hlive'
  rw [hpeek r' d' hd', Owned.find_put, h id' e₀ hlive₀ r' d' (by rw [hcls]; exact hd')]

/-- A read makes a list exactly when nothing belongs to the entity yet. -/
theorem Faithful.read (h : Faithful schema s) {id : ℕ} {e : Entity Class} {r : String} {d : Desc}
    (hlive : s.heap.live.lookup id = some e) (hd : schema.attribute e.cls r = some d)
    {heap : Heap Class Desc}
    (hheap : (s.heap.getAttribute schema id e r).map Prod.snd = some heap) :
    Faithful schema ⟨heap, if (s.own.find id r).isSome then s.own
      else s.own.put id r (.list s.heap.lists)⟩ := by
  rw [Heap.heap_getAttribute hd] at hheap
  obtain rfl := Option.some.inj hheap
  have hpeek := h id e hlive r d hd
  rw [← hpeek]
  cases hfound : s.heap.peek schema id e r d with
  | some v => exact h
  | none =>
    intro id' e' hlive' r' d' hd'
    dsimp only at hlive' ⊢
    rw [Option.isSome_none, if_neg Bool.false_ne_true, Owned.find_put]
    by_cases hsame : id' = id ∧ r' = r
    · obtain ⟨rfl, rfl⟩ := hsame
      obtain rfl := Option.some.inj (hlive.symm.trans hlive')
      obtain rfl := Option.some.inj (hd.symm.trans hd')
      rw [if_pos ⟨rfl, rfl⟩]
      exact Heap.peek_of_lookup hfound (AList.lookup_insert _)
    · rw [if_neg hsame, ← h id' e' hlive' r' d' hd']
      refine Heap.peek_congr (AList.lookup_insert_ne fun hkey => hsame ?_)
      obtain ⟨rfl, rfl⟩ := Prod.mk.inj hkey
      obtain rfl := Option.some.inj (hlive.symm.trans hlive')
      exact ⟨rfl, schema.distinct _ _ _ _ hd' hd⟩

/-- **Only a creation can go wrong**, when it finds entries under its id. -/
theorem faithful_step_iff (h : Faithful schema s) {a : Action Class}
    (hstep : step schema s a = some s') : Untouched schema s a s' ↔ Faithful schema s' := by
  cases a with
  | create id c kwargs =>
    rw [step, Option.ite_none_right_eq_some] at hstep
    obtain ⟨-, heq⟩ := hstep
    obtain rfl := Option.some.inj heq
    exact (faithful_create_iff h).symm
  | destroy id =>
    obtain ⟨e, -, rfl⟩ := Option.map_eq_some_iff.mp hstep
    refine iff_of_true trivial fun id' e' hlive r d hd => ?_
    have hne : id' ≠ id := by
      rintro rfl
      rw [Heap.destroy, AList.lookup_erase] at hlive
      cases hlive
    have hlive' : s.heap.live.lookup id' = some e' := by
      rw [← hlive]
      exact (AList.lookup_erase_ne hne).symm
    have hown : Owned.find (s.own.erase id) id' r = s.own.find id' r := by
      rw [Owned.find, AList.lookup_erase_ne hne, Owned.find]
    rw [hown, ← h id' e' hlive' r d hd]
    rfl
  | write id r v =>
    obtain ⟨e, hlive, hstep⟩ := Option.bind_eq_some_iff.mp hstep
    obtain ⟨d, hd, hstep⟩ := Option.bind_eq_some_iff.mp hstep
    cases hstep
    exact iff_of_true trivial (h.write hlive hd v)
  | read id r =>
    obtain ⟨e, hlive, hstep⟩ := Option.bind_eq_some_iff.mp hstep
    obtain ⟨d, hd, hstep⟩ := Option.bind_eq_some_iff.mp hstep
    obtain ⟨⟨v, heap⟩, hget, hstep⟩ := Option.bind_eq_some_iff.mp hstep
    cases hstep
    exact iff_of_true trivial (h.read hlive hd (by rw [hget]; rfl))

theorem faithful_init : Faithful schema init := by
  intro id e hlive
  cases hlive

variable (schema)

/-- **Relation values belong to their instance in exactly the runs in which every creation finds the
caches untouched.** -/
theorem always_faithful_iff (l : List (Action Class)) :
    Runs.Always (step schema) (Faithful schema) init l ↔
      Runs.EachStep (step schema) (Untouched schema) init l := by
  have hiff : ∀ s a s', Faithful schema s → step schema s a = some s' →
      (Untouched schema s a s' ↔ Faithful schema s') := fun s a s' h => faithful_step_iff h
  exact Runs.always_iff (fun _ h => h) hiff (fun s a s' h hstep => (hiff s a s' h hstep).mp)
    faithful_init l

end

/-- A class with one relation. -/
def personSchema : Schema Unit Unit where
  relations _ r := if r = "friends" then some () else none
  inherited _ _ := none
  distinct := by
    intro _ r r' _ h h'
    simp only [Option.or_none, ite_eq_left_iff, reduceCtorEq, imp_false, not_not] at h h'
    rw [h, h']

/-- A person whose friends are set is gone, and another one is created under the same id. -/
def reusedId : List (Action Unit) :=
  [.create 7 () ∅, .write 7 "friends" (.value 1), .destroy 7, .create 7 () ∅]

/-- **The friends of the new person are those of the one that is gone.** -/
theorem reusedId_not_faithful :
    ((Runs.run (step personSchema) init reusedId).bind fun s =>
        (s.heap.live.lookup 7).bind fun e =>
          (s.heap.getAttribute personSchema 7 e "friends").map Prod.fst) = some (.value 1) ∧
      ¬ Runs.Always (step personSchema) (Faithful personSchema) init reusedId := by
  refine ⟨rfl, fun hall => ?_⟩
  have hfaithful := hall reusedId List.prefix_rfl _ rfl
  exact absurd (hfaithful 7 _ rfl "friends" () rfl) (by decide +kernel)

end KuzuEventBus.Sdk.Relations
