import RestSql.Service.Document

/-!
# What a document declares

The decoders of a document name its methods and parameters, write the verbs in capitals and classify the
parameters. A `DeclaredNode` is a node of the tree of resources before that, as the document writes it. The
tree of resources of a document is what becomes of the declared one (`resources_of_ofText?`), the keys of
which are sorted at every level (`sorted_of_ofText?`).
-/

namespace RestSql

namespace Dict

variable {α β : Type}

theorem put_mapValues (f : α → β) (d : Dict α) (key : String) (value : α) :
    put (mapValues f d) key (f value) = mapValues f (put d key value) := by
  induction d with
  | nil => rfl
  | cons e rest ih =>
      obtain ⟨k, v⟩ := e
      simp only [mapValues, List.map_cons, put] at ih ⊢
      split
      · rfl
      · split
        · rfl
        · rw [ih]
          rfl

theorem ofEntries_mapValues (f : α → β) (entries : List (String × α)) :
    ofEntries (mapValues f entries) = mapValues f (ofEntries entries) := by
  suffices h : ∀ d : Dict α, (mapValues f entries).foldl (fun d e => put d e.1 e.2) (mapValues f d) =
      mapValues f (entries.foldl (fun d e => put d e.1 e.2) d) from h []
  induction entries with
  | nil => exact fun _ => rfl
  | cons e rest ih =>
      intro d
      rw [List.foldl_cons, ← ih, ← put_mapValues]
      rfl

end Dict

namespace Json

namespace Decoder

variable {α β : Type}

/-- What the decoder gives, changed by a function. -/
def map (f : α → β) (d : Decoder α) : Decoder β := fun depth t =>
  (d depth t).map f

theorem mapM_map {ι : Type} (f : α → β) (d : ι → Option α) (items : List ι) :
    (items.mapM fun i => (d i).map f) = (items.mapM d).map (List.map f) := by
  induction items with
  | nil => rfl
  | cons i rest ih =>
      rw [List.mapM_cons, List.mapM_cons, ih]
      cases d i with
      | none => rfl
      | some a => cases rest.mapM d <;> rfl

/-- A member of an object as an entry of a table. -/
def member? (d : Decoder α) (depth : Nat) (m : List Piece × Tree) : Option (String × α) := do
  let key ← Piece.string? m.1
  let a ← d depth m.2
  return (key, a)

theorem dict_object (d : Decoder α) (depth : Nat) (members : List (List Piece × Tree)) :
    dict d (depth + 1) (.object members) = (members.mapM (member? d depth)).map Dict.ofEntries := by
  show (members.mapM (member? d depth) >>= _) = _
  cases members.mapM (member? d depth) <;> rfl

theorem member?_map (f : α → β) (d : Decoder α) (depth : Nat) :
    member? (d.map f) depth = fun m => (member? d depth m).map fun e => (e.1, f e.2) := by
  funext m
  rw [member?, member?, map]
  cases Piece.string? m.1 with
  | none => rfl
  | some key => cases d depth m.2 <;> rfl

theorem dict_map (f : α → β) (d : Decoder α) : dict (d.map f) = (dict d).map (Dict.mapValues f) := by
  funext depth t
  cases depth with
  | zero => rfl
  | succ depth =>
      cases t with
      | object members =>
          rw [dict_object, member?_map, mapM_map, map, dict_object, Option.map_map, Option.map_map]
          exact congrArg (Option.map · _) (funext fun entries => Dict.ofEntries_mapValues f entries)
      | _ => rfl

theorem of_mapM_eq_some {ι : Type} {d : ι → Option α} {items : List ι} {out : List α}
    (h : items.mapM d = some out) {a : α} (ha : a ∈ out) : ∃ i ∈ items, d i = some a := by
  induction items generalizing out with
  | nil =>
      cases h
      cases ha
  | cons i rest ih =>
      rw [List.mapM_cons] at h
      obtain ⟨b, hb, h⟩ := Option.bind_eq_some_iff.1 h
      obtain ⟨more, hmore, h⟩ := Option.bind_eq_some_iff.1 h
      cases h
      rcases List.mem_cons.1 ha with rfl | ha
      · exact ⟨i, List.mem_cons_self, hb⟩
      · obtain ⟨j, hj, hd⟩ := ih hmore ha
        exact ⟨j, List.mem_cons_of_mem i hj, hd⟩

/-- A table is sorted, and its values are decoded. -/
theorem of_dict_eq_some {d : Decoder α} {depth : Nat} {t : Tree} {table : Dict α}
    (h : dict d depth t = some table) :
    Dict.Sorted table ∧ ∀ e ∈ table, ∃ depth t, d depth t = some e.2 := by
  cases depth with
  | zero => cases h
  | succ depth =>
      cases t with
      | object members =>
          rw [dict_object] at h
          obtain ⟨entries, hentries, rfl⟩ := Option.map_eq_some_iff.1 h
          refine ⟨Dict.sorted_ofEntries entries, fun e he => ?_⟩
          obtain ⟨m, -, hm⟩ := of_mapM_eq_some hentries (Dict.mem_ofEntries he)
          obtain ⟨key, -, hm⟩ := Option.bind_eq_some_iff.1 hm
          obtain ⟨a, ha, hm⟩ := Option.bind_eq_some_iff.1 hm
          cases hm
          exact ⟨depth, m.2, ha⟩
      | _ => cases h

end Decoder

theorem Record.field?_map {α β : Type} (f : α → β) (r : Record) (name : String) (d : Decoder α)
    (default : α) : r.field? name (d.map f) (f default) = (r.field? name d default).map f := by
  unfold field?
  split <;> rfl

theorem Record.of_field?_dict {α : Type} {r : Record} {name : String} {d : Decoder α} {table : Dict α}
    (h : r.field? name (Decoder.dict d) [] = some table) :
    Dict.Sorted table ∧ ∀ e ∈ table, ∃ depth t, d depth t = some e.2 := by
  unfold field? at h
  split at h
  · exact Decoder.of_dict_eq_some h
  · cases h
    exact ⟨List.Pairwise.nil, fun e he => absurd he List.not_mem_nil⟩

end Json

open Json (Decoder Record)

/-- A parameter as a document writes it. -/
structure DeclaredParameter where
  kind : String
  format : String
  location : String
  required : Bool
  description : String

namespace DeclaredParameter

def decoder : Decoder DeclaredParameter := fun depth t => do
  let r ← Record.ofTree? ["type", "format", "location", "required", "description"] depth t
  let kind ← r.text? "type"
  let format ← r.text? "format"
  let location ← r.text? "location"
  let required ← r.field? "required" Decoder.flag false
  let description ← r.text? "description"
  return { kind, format, location, required, description }

/-- The parameter of the given name. Every location but the path is the query. -/
def toParameter (name : String) (p : DeclaredParameter) : Parameter :=
  { name, kind := p.kind, format := p.format
    place := if p.location = "path" then .path else .query
    required := p.required, description := p.description }

end DeclaredParameter

/-- A method as a document writes it. -/
structure DeclaredMethod where
  id : String
  path : String
  verb : String
  description : String
  parameters : Dict DeclaredParameter
  parameterOrder : List String
  request : Option String
  response : Option String

namespace DeclaredMethod

def decoder : Decoder DeclaredMethod := fun depth t => do
  let r ← Record.ofTree? ["id", "path", "httpMethod", "description", "parameters", "parameterOrder",
    "request", "response"] depth t
  let id ← r.text? "id"
  let path ← r.text? "path"
  let verb ← r.text? "httpMethod"
  let description ← r.text? "description"
  let parameters ← r.field? "parameters" (Decoder.dict DeclaredParameter.decoder) []
  let parameterOrder ← r.field? "parameterOrder" (Decoder.list Decoder.text) []
  let request ← r.field? "request" (Decoder.optional Document.refDecoder) none
  let response ← r.field? "response" (Decoder.optional Document.refDecoder) none
  return { id, path, verb, description, parameters, parameterOrder, request, response }

/-- The method of the given name, with the verb in capitals and the parameters named by their keys. -/
def toMethod (name : String) (m : DeclaredMethod) : Method :=
  { id := m.id, name, path := m.path, verb := Text.upper m.verb, description := m.description
    parameters := m.parameters.map fun (key, p) => (key, p.toParameter key)
    parameterOrder := m.parameterOrder, request := m.request, response := m.response }

end DeclaredMethod

/-- A node of the tree of resources as a document writes it. -/
inductive DeclaredNode
  | node (methods : Dict DeclaredMethod) (children : List (String × DeclaredNode))

namespace DeclaredNode

def methods : DeclaredNode → Dict DeclaredMethod
  | node methods _ => methods

def children : DeclaredNode → Dict DeclaredNode
  | node _ children => children

/-- The methods of the node, each named by its key. -/
def toMethods (n : DeclaredNode) : Dict Method :=
  n.methods.map fun (key, m) => (key, m.toMethod key)

mutual

def toNode : DeclaredNode → ResourceNode
  | node methods children => .node (toMethods (node methods children)) (toNodes children)

def toNodes : List (String × DeclaredNode) → List (String × ResourceNode)
  | [] => []
  | (key, n) :: rest => (key, n.toNode) :: toNodes rest

end

theorem toNodes_eq (nodes : List (String × DeclaredNode)) : toNodes nodes = Dict.mapValues toNode nodes := by
  induction nodes with
  | nil => rfl
  | cons e rest ih =>
      obtain ⟨key, n⟩ := e
      rw [toNodes, ih]
      rfl

def decoder : Nat → Decoder DeclaredNode
  | 0, _, _ => none
  | levels + 1, depth, t => do
    let r ← Record.ofTree? ["methods", "resources"] depth t
    let methods ← r.field? "methods" (Decoder.dict DeclaredMethod.decoder) []
    let children ← r.field? "resources" (Decoder.dict (decoder levels)) []
    return .node methods children

/-- The root of the tree of resources of a document: a node without methods, above the resources. -/
def rootDecoder : Decoder DeclaredNode := fun depth t => do
  let r ← Record.ofTree? ["id", "name", "version", "title", "description", "baseUrl", "rootUrl",
    "servicePath", "documentationLink", "resources", "schemas"] depth t
  let children ← r.field? "resources" (Decoder.dict (decoder depth)) []
  return .node [] children

/-- The tree of resources that a text declares. -/
def ofText? (text : String) : Option DeclaredNode :=
  Json.decode? rootDecoder text

/-- The keys of the nodes are sorted, at every level. -/
inductive Sorted : DeclaredNode → Prop
  | intro {n : DeclaredNode} (hkeys : Dict.Sorted n.children) (h : ∀ e ∈ n.children, Sorted e.2) : Sorted n

end DeclaredNode

namespace Document

theorem parameterDecoder_eq :
    parameterDecoder = DeclaredParameter.decoder.map (DeclaredParameter.toParameter "") := by
  funext depth t
  simp [parameterDecoder, DeclaredParameter.decoder, Decoder.map, Option.map_bind, Function.comp_def,
    DeclaredParameter.toParameter]

theorem methodDecoder_eq : methodDecoder = DeclaredMethod.decoder.map (DeclaredMethod.toMethod "") := by
  funext depth t
  have hparameters (r : Record) : r.field? "parameters" (Decoder.dict parameterDecoder) [] =
      (r.field? "parameters" (Decoder.dict DeclaredParameter.decoder) []).map
        (Dict.mapValues (DeclaredParameter.toParameter "")) := by
    rw [parameterDecoder_eq, Decoder.dict_map, ← Record.field?_map]
    rfl
  simp [methodDecoder, DeclaredMethod.decoder, Decoder.map, Option.map_bind, Function.comp_def,
    hparameters, DeclaredMethod.toMethod, Dict.mapValues, Option.bind_map, DeclaredParameter.toParameter]

theorem nodes_eq_of {levels : Nat} (r : Record)
    (h : nodeDecoder levels = (DeclaredNode.decoder levels).map DeclaredNode.toNode) :
    r.field? "resources" (Decoder.dict (nodeDecoder levels)) [] =
      (r.field? "resources" (Decoder.dict (DeclaredNode.decoder levels)) []).map
        (Dict.mapValues DeclaredNode.toNode) := by
  rw [h, Decoder.dict_map, ← Record.field?_map]
  rfl

theorem nodeDecoder_eq (levels : Nat) :
    nodeDecoder levels = (DeclaredNode.decoder levels).map DeclaredNode.toNode := by
  induction levels with
  | zero => rfl
  | succ levels ih =>
      funext depth t
      have hmethods (r : Record) : r.field? "methods" (Decoder.dict methodDecoder) [] =
          (r.field? "methods" (Decoder.dict DeclaredMethod.decoder) []).map
            (Dict.mapValues (DeclaredMethod.toMethod "")) := by
        rw [methodDecoder_eq, Decoder.dict_map, ← Record.field?_map]
        rfl
      simp [nodeDecoder, DeclaredNode.decoder, Decoder.map, Option.map_bind, Function.comp_def, hmethods,
        nodes_eq_of _ ih, DeclaredNode.toNode, DeclaredNode.toNodes_eq, Dict.mapValues, Option.bind_map,
        DeclaredNode.toMethods, DeclaredNode.methods, DeclaredMethod.toMethod]

/-- The resources of a document are those that its text declares. -/
theorem resources_of_ofText? {text : String} {d : Document} (h : ofText? text = some d) :
    ∃ nodes, DeclaredNode.ofText? text = some (.node [] nodes) ∧
      d.resources = DeclaredNode.toNodes nodes := by
  obtain ⟨t, ht, hd⟩ := Option.bind_eq_some_iff.1 h
  unfold decoder at hd
  obtain ⟨r, hr, hd⟩ := Option.bind_eq_some_iff.1 hd
  -- the texts of the document stand before its resources
  iterate 9 obtain ⟨_, -, hd⟩ := Option.bind_eq_some_iff.1 hd
  obtain ⟨resources, hresources, hd⟩ := Option.bind_eq_some_iff.1 hd
  obtain ⟨schemas, -, hd⟩ := Option.bind_eq_some_iff.1 hd
  cases hd
  rw [nodes_eq_of r (nodeDecoder_eq _)] at hresources
  obtain ⟨nodes, hnodes, rfl⟩ := Option.map_eq_some_iff.1 hresources
  refine ⟨nodes, ?_, (DeclaredNode.toNodes_eq nodes).symm⟩
  rw [DeclaredNode.ofText?, Json.decode?, ht, Option.bind_some, DeclaredNode.rootDecoder]
  exact Option.bind_eq_some_iff.2 ⟨r, hr, Option.bind_eq_some_iff.2 ⟨nodes, hnodes, rfl⟩⟩

end Document

namespace DeclaredNode

theorem sorted_of_decoder {levels depth : Nat} {t : Json.Tree} {n : DeclaredNode}
    (h : decoder levels depth t = some n) : n.Sorted := by
  induction levels generalizing depth t n with
  | zero => cases h
  | succ levels ih =>
      obtain ⟨r, -, h⟩ := Option.bind_eq_some_iff.1 h
      obtain ⟨methods, -, h⟩ := Option.bind_eq_some_iff.1 h
      obtain ⟨nodes, hnodes, h⟩ := Option.bind_eq_some_iff.1 h
      cases h
      obtain ⟨hsorted, hdecoded⟩ := Record.of_field?_dict hnodes
      refine .intro hsorted fun e he => ?_
      obtain ⟨depth, t, he⟩ := hdecoded e he
      exact ih he

theorem sorted_of_ofText? {text : String} {root : DeclaredNode} (h : ofText? text = some root) :
    root.Sorted := by
  obtain ⟨t, -, h⟩ := Option.bind_eq_some_iff.1 h
  obtain ⟨r, -, h⟩ := Option.bind_eq_some_iff.1 h
  obtain ⟨nodes, hnodes, h⟩ := Option.bind_eq_some_iff.1 h
  cases h
  obtain ⟨hsorted, hdecoded⟩ := Record.of_field?_dict hnodes
  refine .intro hsorted fun e he => ?_
  obtain ⟨depth, t, he⟩ := hdecoded e he
  exact sorted_of_decoder he

end DeclaredNode
end RestSql
