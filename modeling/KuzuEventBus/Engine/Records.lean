import KuzuEventBus.Engine.Replay

/-!
# The bytes of records and segments

`WalRecord::to_bytes` and `from_bytes` of `casys_engine/src/index/persistence.rs`: a
record is written as a JSON object, and read back field by field, each field on its
own and with a default of its own.  The segments are read the same way.

## Main definitions

* `WalRecord.toJson`, `WalRecord.toBytes` — the document of a record, and its bytes.
* `decodeRecord`, `WalRecord.fromBytes` — reading a record back.
* `WalRecord.Same` — the same record, up to the order of its properties.
* `NodeComplete`, `EdgeComplete`, `SegmentComplete` — every field is there, with its type.
* `DecodesFaithfully`, `LoadsFaithfully` — nothing is read that was not written.

## Main results

* `toBytes_roundTrip` — **a record is read back from its bytes, and two records never
  share them.**
* `loadFromSegments_isOk_iff` — when segments are loaded at all.
* `decoders_faithful_iff` — **the decoders invent nothing exactly when every field of what
  they accept is there.**
-/

namespace KuzuEventBus

/-! ### Records -/

namespace WalRecord

/-- The document of `to_bytes`. -/
def toJson : WalRecord → Json
  | .addNode id labels properties =>
    .object [("id", .number (.posInt id)), ("labels", Json.ofStrings labels),
      ("properties", serializeProps properties), ("type", .string "add_node")]
  | .addEdge id fromNode toNode edgeType properties =>
    .object [("edge_type", .string edgeType), ("from", .number (.posInt fromNode)),
      ("id", .number (.posInt id)), ("properties", serializeProps properties),
      ("to", .number (.posInt toNode)), ("type", .string "add_edge")]

/-- `to_bytes`. -/
def toBytes (serde : Serde) (r : WalRecord) : Bytes := serde.toVec r.toJson

/-- The `add_node` branch of `from_bytes`; what is missing takes a default. -/
def decodeAddNode (json : Json) : WalRecord :=
  .addNode ((json.index "id").asU64.getD 0) ((json.index "labels").asStrings.getD [])
    (deserializeProps (json.index "properties"))

/-- The `add_edge` branch of `from_bytes`; what is missing takes a default. -/
def decodeAddEdge (json : Json) : WalRecord :=
  .addEdge ((json.index "id").asU64.getD 0) ((json.index "from").asU64.getD 0)
    ((json.index "to").asU64.getD 0) ((json.index "edge_type").asStr.getD "")
    (deserializeProps (json.index "properties"))

/-- `from_bytes`, after the bytes are parsed. -/
def decode (json : Json) : Except Fault WalRecord :=
  match (json.index "type").asStr with
  | none => .error (.error (.storageIo "missing type"))
  | some recType =>
    if recType = "add_node" then .ok (decodeAddNode json)
    else if recType = "add_edge" then .ok (decodeAddEdge json)
    else .error (.error (.storageIo ("unknown WAL record type: " ++ recType)))

/-- `from_bytes`. -/
def fromBytes (serde : Serde) (data : Bytes) : Except Fault WalRecord :=
  match serde.fromSlice data with
  | none => .error (.error (.storageIo "WAL record parse"))
  | some json => decode json

/-- The properties of a record. -/
def properties : WalRecord → Properties
  | .addNode _ _ properties | .addEdge _ _ _ _ properties => properties

/-- Every property value of the record is a string, an integer, a boolean or null. -/
def Storable (r : WalRecord) : Prop := Properties.Storable r.properties

/-- The same record, up to the iteration order of its properties. -/
def Same : WalRecord → WalRecord → Prop
  | .addNode id labels ps, .addNode id' labels' ps' => id = id' ∧ labels = labels' ∧ ps.SameMap ps'
  | .addEdge id a b type ps, .addEdge id' a' b' type' ps' =>
    id = id' ∧ a = a' ∧ b = b' ∧ type = type' ∧ ps.SameMap ps'
  | .addNode .., .addEdge .. | .addEdge .., .addNode .. => False

theorem Same.symm {r r' : WalRecord} (h : Same r r') : Same r' r := by
  cases r <;> cases r'
  case addNode.addNode =>
    obtain ⟨hid, hlabels, hps⟩ := h
    exact ⟨hid.symm, hlabels.symm, hps.symm⟩
  case addEdge.addEdge =>
    obtain ⟨hid, ha, hb, htype, hps⟩ := h
    exact ⟨hid.symm, ha.symm, hb.symm, htype.symm, hps.symm⟩
  all_goals exact h.elim

theorem Same.trans {r r' r'' : WalRecord} (h : Same r r') (h' : Same r' r'') : Same r r'' := by
  cases r <;> cases r' <;> cases r''
  case addNode.addNode.addNode =>
    obtain ⟨hid, hlabels, hps⟩ := h
    obtain ⟨hid', hlabels', hps'⟩ := h'
    exact ⟨hid.trans hid', hlabels.trans hlabels', hps.trans hps'⟩
  case addEdge.addEdge.addEdge =>
    obtain ⟨hid, ha, hb, htype, hps⟩ := h
    obtain ⟨hid', ha', hb', htype', hps'⟩ := h'
    exact ⟨hid.trans hid', ha.trans ha', hb.trans hb', htype.trans htype', hps.trans hps'⟩
  all_goals first | exact h.elim | exact h'.elim

/-- A record as its document keeps it: its property values are what JSON makes of them. -/
def stored : WalRecord → WalRecord
  | .addNode id labels ps => .addNode id labels (deserializeProps (serializeProps ps))
  | .addEdge id a b type ps => .addEdge id a b type (deserializeProps (serializeProps ps))

theorem decode_toJson (r : WalRecord) : decode r.toJson = .ok r.stored := by
  cases r <;> simp [decode, decodeAddNode, decodeAddEdge, toJson, stored, Json.index, Json.get,
    Json.asU64, JsonNumber.asU64, Json.asStr, Json.asStrings_ofStrings, List.lookup_cons]

theorem same_stored {r : WalRecord} (h : r.Storable) : Same r r.stored := by
  cases r with
  | addNode id labels ps => exact ⟨rfl, rfl, sameMap_deserializeProps h⟩
  | addEdge id a b type ps => exact ⟨rfl, rfl, rfl, rfl, sameMap_deserializeProps h⟩

/-- A record whose document reads back as itself is read back as it is kept. -/
theorem fromBytes_toBytes_stored {serde : Serde} {r : WalRecord}
    (h : serde.RoundTrips r.toJson) : fromBytes serde (toBytes serde r) = .ok r.stored := by
  unfold fromBytes toBytes
  rw [h]
  exact decode_toJson r

/-- **A record is read back from its bytes, and two records never share them.** -/
theorem toBytes_roundTrip (serde : Serde) (r r' : WalRecord) (hr : r.Storable)
    (hr' : r'.Storable) (hdoc : serde.RoundTrips r.toJson) (hdoc' : serde.RoundTrips r'.toJson) :
    (∃ back, fromBytes serde (toBytes serde r) = .ok back ∧ Same r back) ∧
      (¬ Same r r' → toBytes serde r ≠ toBytes serde r') := by
  have hback := fromBytes_toBytes_stored hdoc
  refine ⟨⟨r.stored, hback, same_stored hr⟩, fun hne hbytes => hne ?_⟩
  -- the same bytes are read back as one record
  rw [hbytes, fromBytes_toBytes_stored hdoc'] at hback
  have hstored : r'.stored = r.stored := Except.ok.inj hback
  exact (same_stored hr).trans (hstored ▸ (same_stored hr').symm)

/-- `(1:Test {test: 42})` and an edge from it to itself are read back. -/
theorem toBytes_roundTrip_test :
    let node : WalRecord := .addNode 1 ["Test"] (AList.insert "test" (.int 42) ∅)
    let edge : WalRecord := .addEdge 1 1 1 "R" (AList.insert "w" .null ∅)
    let serde := Serde.ofDocs [node.toJson, edge.toJson]
    (∃ back, fromBytes serde (toBytes serde node) = .ok back ∧ Same node back) ∧
      (¬ Same node edge → toBytes serde node ≠ toBytes serde edge) :=
  toBytes_roundTrip _ _ _ (storable_empty.insert trivial) (storable_empty.insert trivial)
    (by unfold Serde.RoundTrips; decide +kernel) (by unfold Serde.RoundTrips; decide +kernel)

end WalRecord

/-! ### Fields -/

/-- The object has all properties a decoder keeps: each field is a value. -/
def PropsComplete (json : Json) : Prop :=
  ∃ fields, json.asObject = some fields ∧ ∀ kv ∈ fields, (Value.fromJson kv.2).isSome = true

/-- A node's id, labels and properties are there. -/
structure NodeComplete (json : Json) : Prop where
  id : (json.index "id").asU64.isSome = true
  labels : (json.index "labels").asStrings.isSome = true
  properties : PropsComplete (json.index "properties")

/-- An edge's id, endpoints, type (under the key `typeKey`) and properties are there. -/
structure EdgeComplete (typeKey : String) (json : Json) : Prop where
  id : (json.index "id").asU64.isSome = true
  fromNode : (json.index "from").asU64.isSome = true
  toNode : (json.index "to").asU64.isSome = true
  edgeType : (json.index typeKey).asStr.isSome = true
  properties : PropsComplete (json.index "properties")

namespace WalRecord

/-- The fields of the record are fields of the document, of the right types. -/
def Recorded (json : Json) : WalRecord → Prop
  | .addNode id labels ps => (json.index "type").asStr = some "add_node" ∧
      (json.index "id").asU64 = some id ∧ (json.index "labels").asStrings = some labels ∧
      PropsComplete (json.index "properties") ∧ ps = deserializeProps (json.index "properties")
  | .addEdge id a b type ps => (json.index "type").asStr = some "add_edge" ∧
      (json.index "id").asU64 = some id ∧ (json.index "from").asU64 = some a ∧
      (json.index "to").asU64 = some b ∧ (json.index "edge_type").asStr = some type ∧
      PropsComplete (json.index "properties") ∧ ps = deserializeProps (json.index "properties")

/-- **What `from_bytes` accepts has every field of the record it returns.** -/
def DecodesFaithfully (serde : Serde) (data : Bytes) : Prop :=
  ∀ r, fromBytes serde data = .ok r → ∃ json, serde.fromSlice data = some json ∧ Recorded json r

/-- A document of a known type has every field of a record of that type. -/
structure DocComplete (json : Json) : Prop where
  node : (json.index "type").asStr = some "add_node" → NodeComplete json
  edge : (json.index "type").asStr = some "add_edge" → EdgeComplete "edge_type" json

variable {json : Json}

theorem decode_addNode (h : (json.index "type").asStr = some "add_node") :
    decode json = .ok (decodeAddNode json) := by
  unfold decode
  rw [h]
  rfl

theorem decode_addEdge (h : (json.index "type").asStr = some "add_edge") :
    decode json = .ok (decodeAddEdge json) := by
  unfold decode
  rw [h]
  rfl

/-- Only two types of documents are records. -/
theorem decode_eq_ok {r : WalRecord} (h : decode json = .ok r) :
    ((json.index "type").asStr = some "add_node" ∧ r = decodeAddNode json) ∨
      ((json.index "type").asStr = some "add_edge" ∧ r = decodeAddEdge json) := by
  unfold decode at h
  cases htype : (json.index "type").asStr with
  | none => rw [htype] at h; cases h
  | some recType =>
    rw [htype] at h
    dsimp only at h
    by_cases hnode : recType = "add_node"
    · rw [if_pos hnode] at h
      cases h
      exact .inl ⟨congrArg some hnode, rfl⟩
    rw [if_neg hnode] at h
    by_cases hedge : recType = "add_edge"
    · rw [if_pos hedge] at h
      cases h
      exact .inr ⟨congrArg some hedge, rfl⟩
    · rw [if_neg hedge] at h
      cases h

theorem recorded_decodeAddNode_iff (h : (json.index "type").asStr = some "add_node") :
    Recorded json (decodeAddNode json) ↔ NodeComplete json := by
  constructor
  · rintro ⟨-, hid, hlabels, hprops, -⟩
    exact ⟨by rw [hid]; rfl, by rw [hlabels]; rfl, hprops⟩
  · intro hcomplete
    obtain ⟨id, hid⟩ := Option.isSome_iff_exists.mp hcomplete.id
    obtain ⟨labels, hlabels⟩ := Option.isSome_iff_exists.mp hcomplete.labels
    exact ⟨h, by rw [hid]; rfl, by rw [hlabels]; rfl, hcomplete.properties, rfl⟩

theorem recorded_decodeAddEdge_iff (h : (json.index "type").asStr = some "add_edge") :
    Recorded json (decodeAddEdge json) ↔ EdgeComplete "edge_type" json := by
  constructor
  · rintro ⟨-, hid, hfrom, hto, htype, hprops, -⟩
    exact ⟨by rw [hid]; rfl, by rw [hfrom]; rfl, by rw [hto]; rfl, by rw [htype]; rfl, hprops⟩
  · intro hcomplete
    obtain ⟨id, hid⟩ := Option.isSome_iff_exists.mp hcomplete.id
    obtain ⟨a, ha⟩ := Option.isSome_iff_exists.mp hcomplete.fromNode
    obtain ⟨b, hb⟩ := Option.isSome_iff_exists.mp hcomplete.toNode
    obtain ⟨type, htype⟩ := Option.isSome_iff_exists.mp hcomplete.edgeType
    exact ⟨h, by rw [hid]; rfl, by rw [ha]; rfl, by rw [hb]; rfl, by rw [htype]; rfl,
      hcomplete.properties, rfl⟩

/-- Nothing is invented for bytes that are no document of a known type, or a complete one. -/
theorem decodesFaithfully_iff (serde : Serde) (data : Bytes) :
    DecodesFaithfully serde data ↔ ∀ json, serde.fromSlice data = some json → DocComplete json := by
  constructor
  · intro hfaithful json hparse
    have hbytes : fromBytes serde data = decode json := by
      unfold fromBytes
      rw [hparse]
    constructor
    · intro htype
      obtain ⟨json', hparse', hrec⟩ := hfaithful _ (hbytes.trans (decode_addNode htype))
      obtain rfl := Option.some.inj (hparse.symm.trans hparse')
      exact (recorded_decodeAddNode_iff htype).mp hrec
    · intro htype
      obtain ⟨json', hparse', hrec⟩ := hfaithful _ (hbytes.trans (decode_addEdge htype))
      obtain rfl := Option.some.inj (hparse.symm.trans hparse')
      exact (recorded_decodeAddEdge_iff htype).mp hrec
  · intro hcomplete r hr
    unfold fromBytes at hr
    cases hparse : serde.fromSlice data with
    | none => rw [hparse] at hr; cases hr
    | some json =>
      rw [hparse] at hr
      refine ⟨json, rfl, ?_⟩
      obtain ⟨htype, rfl⟩ | ⟨htype, rfl⟩ := decode_eq_ok hr
      · exact (recorded_decodeAddNode_iff htype).mpr ((hcomplete json hparse).node htype)
      · exact (recorded_decodeAddEdge_iff htype).mpr ((hcomplete json hparse).edge htype)

end WalRecord

/-! ### Segments -/

/-- The entries of a segment: none if there is no array of them. -/
def segmentEntries (key : String) (json : Json) : List Json := (json.index key).asArray.getD []

/-- Every entry of a segment is complete, and a count that is there is their number. -/
structure SegmentComplete (key : String) (Complete : Json → Prop) (json : Json) : Prop where
  entries : ∀ entry ∈ segmentEntries key json, Complete entry
  count : ∀ count, json.get "count" = some count →
    count.asU64 = some (segmentEntries key json).length

/-- The id of an entry, or its default, has a next one. -/
def HasNextId (entry : Json) : Prop := (entry.index "id").asU64.getD 0 + 1 < 2 ^ 64

instance (entry : Json) : Decidable (HasNextId entry) := inferInstanceAs (Decidable (_ < _))

/-- A segment file that is there is a document, and every id in it has a next one. -/
def FileLoads (serde : Serde) (key : String) (file : Option Bytes) : Prop :=
  ∀ data, file = some data → ∃ json, serde.fromSlice data = some json ∧
    ∀ entry ∈ segmentEntries key json, HasNextId entry

/-- A segment file that is there is a document whose entries and count are complete. -/
def FileComplete (serde : Serde) (key : String) (Complete : Json → Prop) (file : Option Bytes) :
    Prop :=
  ∀ data, file = some data → ∃ json, serde.fromSlice data = some json ∧
    SegmentComplete key Complete json

namespace InMemoryGraphStore

variable {serde : Serde} {s : InMemoryGraphStore}

theorem exists_nextIdAfter_iff {id next : ℕ} (h : next < 2 ^ 64) :
    (∃ next', nextIdAfter id next = .ok next') ↔ id + 1 < 2 ^ 64 := by
  constructor
  · rintro ⟨next', hnext⟩
    obtain ⟨hlt, -, hbound⟩ := nextIdAfter_eq_ok hnext h
    omega
  · exact nextIdAfter_of_lt next

theorem exists_putNode_iff (h : s.Keyed) (n : Node) :
    (∃ s', s.putNode n = .ok s') ↔ n.id + 1 < 2 ^ 64 := by
  rw [← exists_nextIdAfter_iff h.nextNodeId_lt]
  constructor
  · rintro ⟨s', hput⟩
    obtain ⟨next, hnext, -⟩ := bind_eq_ok hput
    exact ⟨next, hnext⟩
  · rintro ⟨next, hnext⟩
    unfold putNode
    rw [hnext]
    exact ⟨_, rfl⟩

theorem exists_putEdge_iff (h : s.Keyed) (e : Edge) :
    (∃ s', s.putEdge e = .ok s') ↔ e.id + 1 < 2 ^ 64 := by
  rw [← exists_nextIdAfter_iff h.nextEdgeId_lt]
  constructor
  · rintro ⟨s', hput⟩
    obtain ⟨next, hnext, -⟩ := bind_eq_ok hput
    exact ⟨next, hnext⟩
  · rintro ⟨next, hnext⟩
    unfold putEdge
    rw [hnext]
    exact ⟨_, rfl⟩

/-- A loop over entries each of which is put exactly when its id has a next one. -/
theorem exists_foldlM_iff {put : InMemoryGraphStore → Json → Except Fault InMemoryGraphStore}
    (hput : ∀ {s : InMemoryGraphStore} (entry : Json), s.Keyed →
      ((∃ s', put s entry = .ok s') ↔ HasNextId entry))
    (hkeyed : ∀ {s s' : InMemoryGraphStore} {entry}, s.Keyed → put s entry = .ok s' → s'.Keyed)
    (entries : List Json) : ∀ {s : InMemoryGraphStore}, s.Keyed →
      ((∃ s', entries.foldlM put s = .ok s') ↔ ∀ entry ∈ entries, HasNextId entry) := by
  induction entries with
  | nil => exact fun _ => iff_of_true ⟨_, rfl⟩ (by simp)
  | cons entry entries ih =>
    intro s h
    rw [List.forall_mem_cons, ← hput entry h]
    constructor
    · rintro ⟨s', hs'⟩
      rw [List.foldlM_cons] at hs'
      obtain ⟨s₁, hs₁, hs'⟩ := bind_eq_ok hs'
      exact ⟨⟨s₁, hs₁⟩, (ih (hkeyed h hs₁)).mp ⟨s', hs'⟩⟩
    · rintro ⟨⟨s₁, hs₁⟩, hrest⟩
      obtain ⟨s', hs'⟩ := (ih (hkeyed h hs₁)).mpr hrest
      refine ⟨s', ?_⟩
      rw [List.foldlM_cons, hs₁]
      exact hs'

theorem exists_loadNodesSegment_iff (h : s.Keyed) (data : Bytes) :
    (∃ s', s.loadNodesSegment serde data = .ok s') ↔ ∃ json, serde.fromSlice data = some json ∧
      ∀ entry ∈ segmentEntries "nodes" json, HasNextId entry := by
  unfold loadNodesSegment
  cases serde.fromSlice data with
  | none => exact iff_of_false (by rintro ⟨s', ⟨⟩⟩) (by rintro ⟨json, ⟨⟩, -⟩)
  | some json =>
    simp only [Option.some.injEq, exists_eq_left']
    have hloop := exists_foldlM_iff (fun entry hs => exists_putNode_iff hs (decodeNode entry))
      (fun hs hput => hs.putNode hput) (segmentEntries "nodes" json) h
    rw [← hloop, segmentEntries]
    cases (json.index "nodes").asArray <;> rfl

theorem exists_loadEdgesSegment_iff (h : s.Keyed) (data : Bytes) :
    (∃ s', s.loadEdgesSegment serde data = .ok s') ↔ ∃ json, serde.fromSlice data = some json ∧
      ∀ entry ∈ segmentEntries "edges" json, HasNextId entry := by
  unfold loadEdgesSegment
  cases serde.fromSlice data with
  | none => exact iff_of_false (by rintro ⟨s', ⟨⟩⟩) (by rintro ⟨json, ⟨⟩, -⟩)
  | some json =>
    simp only [Option.some.injEq, exists_eq_left']
    have hloop := exists_foldlM_iff (fun entry hs => exists_putEdge_iff hs (decodeEdge entry))
      (fun hs hput => hs.putEdge hput) (segmentEntries "edges" json) h
    rw [← hloop, segmentEntries]
    cases (json.index "edges").asArray <;> rfl

theorem exists_loadIfExists_iff {key : String}
    {load : InMemoryGraphStore → Bytes → Except Fault InMemoryGraphStore}
    (hload : ∀ data, (∃ s', load s data = .ok s') ↔ ∃ json, serde.fromSlice data = some json ∧
      ∀ entry ∈ segmentEntries key json, HasNextId entry) (file : Option Bytes) :
    (∃ s', s.loadIfExists load file = .ok s') ↔ FileLoads serde key file := by
  cases file with
  | none => exact iff_of_true ⟨s, rfl⟩ (by rintro data ⟨⟩)
  | some data =>
    unfold FileLoads
    rw [loadIfExists, hload data]
    simp

variable {fs : FileSystem} {root : FilePath} {db : DatabaseName} {branch : BranchName}

/-- **Segments are loaded exactly when those that are there are documents in which every id has a
next one.** -/
theorem loadFromSegments_isOk_iff :
    (∃ s, loadFromSegments serde fs root db branch = .ok s) ↔
      FileLoads serde "nodes" (fs.readFile (nodesPath root db branch)) ∧
        FileLoads serde "edges" (fs.readFile (edgesPath root db branch)) := by
  have hnew : new.Keyed := wf_new.toKeyed
  rw [← exists_loadIfExists_iff (exists_loadNodesSegment_iff hnew)]
  have hedges {s₁ : InMemoryGraphStore} (hs₁ : new.loadIfExists (loadNodesSegment serde)
      (fs.readFile (nodesPath root db branch)) = .ok s₁) :
      (∃ s, s₁.loadIfExists (loadEdgesSegment serde) (fs.readFile (edgesPath root db branch)) =
        .ok s) ↔ FileLoads serde "edges" (fs.readFile (edgesPath root db branch)) := by
    have hkeyed : s₁.Keyed := hnew.loadIfExists (fun h hload => h.loadNodesSegment hload) hs₁
    exact exists_loadIfExists_iff (exists_loadEdgesSegment_iff hkeyed) _
  unfold loadFromSegments
  constructor
  · rintro ⟨s, hs⟩
    obtain ⟨s₁, hs₁, hs⟩ := bind_eq_ok hs
    exact ⟨⟨s₁, hs₁⟩, (hedges hs₁).mp ⟨s, hs⟩⟩
  · rintro ⟨⟨s₁, hs₁⟩, hfile⟩
    obtain ⟨s, hs⟩ := (hedges hs₁).mpr hfile
    refine ⟨s, ?_⟩
    rw [hs₁]
    exact hs

variable (serde fs root db branch)

/-- **What `load_from_segments` accepts has every field of its nodes and edges, and as many of them
as it says.** -/
def LoadsFaithfully : Prop :=
  ∀ s, loadFromSegments serde fs root db branch = .ok s →
    FileComplete serde "nodes" NodeComplete (fs.readFile (nodesPath root db branch)) ∧
      FileComplete serde "edges" (EdgeComplete "type") (fs.readFile (edgesPath root db branch))

theorem loadsFaithfully_iff : LoadsFaithfully serde fs root db branch ↔
    (FileLoads serde "nodes" (fs.readFile (nodesPath root db branch)) →
      FileLoads serde "edges" (fs.readFile (edgesPath root db branch)) →
        FileComplete serde "nodes" NodeComplete (fs.readFile (nodesPath root db branch)) ∧
          FileComplete serde "edges" (EdgeComplete "type")
            (fs.readFile (edgesPath root db branch))) := by
  constructor
  · intro hfaithful hnodes hedges
    obtain ⟨s, hs⟩ := loadFromSegments_isOk_iff.mpr ⟨hnodes, hedges⟩
    exact hfaithful s hs
  · intro hcomplete s hs
    obtain ⟨hnodes, hedges⟩ := loadFromSegments_isOk_iff.mp ⟨s, hs⟩
    exact hcomplete hnodes hedges

end InMemoryGraphStore

/-- **The decoders invent nothing exactly when every field of what they accept is there**: for
bytes of a record that are a document of a known type, and for segments that are loaded. -/
theorem decoders_faithful_iff (serde : Serde) (data : Bytes) (fs : FileSystem) (root : FilePath)
    (db : DatabaseName) (branch : BranchName) :
    (WalRecord.DecodesFaithfully serde data ↔
        ∀ json, serde.fromSlice data = some json → WalRecord.DocComplete json) ∧
      (InMemoryGraphStore.LoadsFaithfully serde fs root db branch ↔
        (FileLoads serde "nodes" (fs.readFile (nodesPath root db branch)) →
          FileLoads serde "edges" (fs.readFile (edgesPath root db branch)) →
            FileComplete serde "nodes" NodeComplete (fs.readFile (nodesPath root db branch)) ∧
              FileComplete serde "edges" (EdgeComplete "type")
                (fs.readFile (edgesPath root db branch)))) :=
  ⟨WalRecord.decodesFaithfully_iff serde data,
    InMemoryGraphStore.loadsFaithfully_iff serde fs root db branch⟩

/-- A record of which only the type is written. -/
def bareRecord : Json := .object [("type", .string "add_node")]

/-- A segment of one node without fields, said to hold two. -/
def bareNodes : Json := .object [("count", .number (.posInt 2)), ("nodes", .array [.object []])]

/-- **A record without fields is read as a node with id 0**, and a segment of one that says two is
loaded. -/
theorem decoders_invent :
    let serde := Serde.ofDocs [bareRecord, bareNodes]
    let db : DatabaseName := ⟨"db", by decide⟩
    let branch : BranchName := ⟨"main", by decide⟩
    let fs := FileSystem.runOps ∅
      (FileSystem.rewriteOps (nodesPath [] db branch) (serde.toVec bareNodes))
    WalRecord.fromBytes serde (serde.toVec bareRecord) = .ok (.addNode 0 [] ∅) ∧
      ¬ WalRecord.DecodesFaithfully serde (serde.toVec bareRecord) ∧
      ¬ InMemoryGraphStore.LoadsFaithfully serde fs [] db branch := by
  intro serde db branch fs
  have hrecord : serde.fromSlice (serde.toVec bareRecord) = some bareRecord := by decide +kernel
  have hnodes : serde.fromSlice (serde.toVec bareNodes) = some bareNodes := by decide +kernel
  have hfile : fs.readFile (nodesPath [] db branch) = some (serde.toVec bareNodes) := rfl
  refine ⟨?_, fun h => ?_, fun h => ?_⟩
  · unfold WalRecord.fromBytes
    rw [hrecord]
    rfl
  · have hcomplete := (WalRecord.decodesFaithfully_iff _ _).mp h bareRecord hrecord
    exact absurd (hcomplete.node rfl).id (by decide)
  · have hfiles := (InMemoryGraphStore.loadsFaithfully_iff _ _ _ _ _).mp h
    obtain ⟨hcomplete, -⟩ := hfiles
      (fun data hdata => by
        obtain rfl := Option.some.inj (hfile.symm.trans hdata)
        exact ⟨bareNodes, hnodes, by decide⟩)
      (fun data hdata => by cases hdata)
    obtain ⟨json, hjson, hsegment⟩ := hcomplete _ hfile
    obtain rfl := Option.some.inj (hnodes.symm.trans hjson)
    exact absurd (hsegment.entries (.object []) (by decide)).id (by decide)

end KuzuEventBus
