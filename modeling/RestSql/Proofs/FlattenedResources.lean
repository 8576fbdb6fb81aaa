import RestSql.Proofs.DeclaredResources
import RestSql.Proofs.DottedPaths

/-!
# Flattened resources

A path of keys leads from the root of the declared tree to a node (`DeclaredNode.below?`). The flattened
resources are the nodes with methods, each under the dotted path to it; and where no key is empty or has a
dot, the dotted path says which node it is (`resources_correspond`).
-/

namespace RestSql

theorem Dict.find?_ofEntries_of_mem {α : Type} {entries : List (String × α)} {key : String} {value : α}
    (hmem : (key, value) ∈ entries) (hsame : ∀ other, (key, other) ∈ entries → other = value) :
    find? (ofEntries entries) key = some value := by
  have hkey : key ∈ keys (ofEntries entries) :=
    mem_keys_ofEntries.2 (List.mem_map.2 ⟨(key, value), hmem, rfl⟩)
  obtain ⟨other, hother⟩ := Option.isSome_iff_exists.1 (isSome_find?.2 hkey)
  rw [hother, hsame other (mem_ofEntries (mem_of_find? hother))]

/-! ## Paths -/

namespace DeclaredNode

variable {n m : DeclaredNode} {key parent name : String} {path : List String}

/-- The node to which a path of keys leads. -/
def below? (n : DeclaredNode) : List String → Option DeclaredNode
  | [] => some n
  | key :: path => (Dict.find? n.children key).bind (·.below? path)

/-- No key below the node is empty or has a dot. -/
def HasPlainKeys (n : DeclaredNode) : Prop :=
  ∀ path m, n.below? path = some m → ∀ key ∈ path, key ≠ "" ∧ '.' ∉ key.toList

mutual

def hasPlainKeys : DeclaredNode → Bool
  | node _ children => eachPlain children

def eachPlain : List (String × DeclaredNode) → Bool
  | [] => true
  | (key, n) :: rest => key ≠ "" ∧ '.' ∉ key.toList ∧ n.hasPlainKeys ∧ eachPlain rest

end

theorem of_eachPlain {nodes : List (String × DeclaredNode)} (h : eachPlain nodes = true) :
    ∀ e ∈ nodes, e.1 ≠ "" ∧ '.' ∉ e.1.toList ∧ e.2.hasPlainKeys = true := by
  induction nodes with
  | nil => exact fun e he => absurd he List.not_mem_nil
  | cons e rest ih =>
      obtain ⟨hne, hdot, hplain, hrest⟩ := of_decide_eq_true h
      exact List.forall_mem_cons.2 ⟨⟨hne, hdot, hplain⟩, ih hrest⟩

theorem hasPlainKeys_of_eq_true (h : n.hasPlainKeys = true) : n.HasPlainKeys := by
  intro path m hm
  induction path generalizing n with
  | nil => exact fun key hkey => absurd hkey List.not_mem_nil
  | cons key path ih =>
      cases n with
      | node methods children =>
          obtain ⟨child, hchild, hm⟩ := Option.bind_eq_some_iff.1 hm
          obtain ⟨hne, hdot, hplain⟩ := of_eachPlain h _ (Dict.mem_of_find? hchild)
          exact List.forall_mem_cons.2 ⟨⟨hne, hdot⟩, ih hplain hm⟩

/-- A nonempty name goes before the path. -/
theorem foldl_childName (h : parent ≠ "") (path : List String) :
    path.foldl Document.childName parent = SchemaSet.dotted (parent :: path) := by
  induction path generalizing parent with
  | nil => rfl
  | cons key path ih =>
      have hname : Document.childName parent key = parent ++ "." ++ key := if_neg h
      have hne : parent ++ "." ++ key ≠ "" := by
        rw [ne_eq, ← String.toList_inj]
        simp
      rw [List.foldl_cons, hname, ih hne, ← String.toList_inj]
      simp [SchemaSet.dotted, String.toList_intercalate, Text.intercalate_cons]

/-- The name of a node is the dotted path to it. -/
theorem foldl_childName_root (h : ∀ key ∈ path, key ≠ "") :
    path.foldl Document.childName "" = SchemaSet.dotted path := by
  cases path with
  | nil => rfl
  | cons key path =>
      have hname : Document.childName "" key = key := if_pos rfl
      rw [List.foldl_cons, hname, foldl_childName (h key List.mem_cons_self)]

/-- A dotted path is cut into its keys in one way. -/
theorem dotted_injective {path other : List String}
    (h : ∀ key ∈ path, key ≠ "" ∧ '.' ∉ key.toList) (h' : ∀ key ∈ other, key ≠ "" ∧ '.' ∉ key.toList)
    (heq : SchemaSet.dotted path = SchemaSet.dotted other) : path = other := by
  have hcut {path : List String} (h : ∀ key ∈ path, key ≠ "" ∧ '.' ∉ key.toList) (hne : path ≠ []) :
      Text.cutAt '.' (SchemaSet.dotted path) = path := by
    have hpieces : path.map String.toList ≠ [] := by simpa using hne
    have hdots : ∀ piece ∈ path.map String.toList, ∀ c ∈ piece, (c == '.') = false := by
      intro piece hpiece c hc
      obtain ⟨key, hkey, rfl⟩ := List.mem_map.1 hpiece
      exact beq_eq_false_iff_ne.2 (ne_of_mem_of_not_mem hc (h key hkey).2)
    have hdot : ".".toList = ['.'] := rfl
    rw [Text.cutAt, SchemaSet.dotted, String.toList_intercalate, hdot,
      Text.cut_intercalate (p := (· == '.')) (beq_self_eq_true '.') hpieces hdots, List.map_map]
    exact List.map_id'' (fun _ => String.ofList_toList) path
  have hempty {path : List String} (h : ∀ key ∈ path, key ≠ "" ∧ '.' ∉ key.toList)
      (hdotted : SchemaSet.dotted path = "") : path = [] := by
    by_contra hne
    have hsame := hcut h hne
    rw [hdotted] at hsame
    exact (h "" (hsame ▸ List.mem_singleton_self "")).1 rfl
  by_cases hne : path = []
  · subst hne
    exact (hempty h' heq.symm).symm
  · have hne' : other ≠ [] := by
      rintro rfl
      exact hne (hempty h heq)
    rw [← hcut h hne, heq, hcut h' hne']

/-! ## The flattened tree -/

theorem mem_flattenEach {nodes : List (String × DeclaredNode)} {e : String × Dict Method} :
    e ∈ Document.flattenEach parent (toNodes nodes) ↔
      ∃ child ∈ nodes, e ∈ Document.flatten (Document.childName parent child.1) child.2.toNode := by
  induction nodes with
  | nil => simp [toNodes, Document.flattenEach]
  | cons child rest ih =>
      rw [toNodes, Document.flattenEach, List.mem_append, ih, List.exists_mem_cons_iff]

theorem mem_flatten_iff {e : String × Dict Method} :
    e ∈ Document.flatten parent n.toNode ↔
      (n.methods ≠ [] ∧ e = (parent, n.toMethods)) ∨
        ∃ child ∈ n.children, e ∈ Document.flatten (Document.childName parent child.1) child.2.toNode := by
  cases n with
  | node methods children =>
      rw [toNode, Document.flatten, List.mem_append, mem_flattenEach, DeclaredNode.methods,
        DeclaredNode.children]
      refine or_congr_left ?_
      cases methods with
      | nil => simp [toMethods, DeclaredNode.methods]
      | cons m rest => simp [toMethods, DeclaredNode.methods]

/-- The flattened tree has the nodes with methods, under the names of the paths that lead to them. -/
theorem mem_flatten (h : n.Sorted) {e : String × Dict Method} :
    e ∈ Document.flatten parent n.toNode ↔
      ∃ path m, n.below? path = some m ∧ m.methods ≠ [] ∧
        e = (path.foldl Document.childName parent, m.toMethods) := by
  induction h generalizing parent with
  | @intro n hkeys _ ih =>
      rw [mem_flatten_iff]
      constructor
      · rintro (⟨hm, he⟩ | ⟨child, hchild, he⟩)
        · exact ⟨[], n, rfl, hm, he⟩
        · obtain ⟨path, m, hpath, hm, he⟩ := (ih child hchild).1 he
          have hfind : Dict.find? n.children child.1 = some child.2 := hkeys.find?_of_mem hchild
          exact ⟨child.1 :: path, m, by rw [below?, hfind, Option.bind_some, hpath], hm, he⟩
      · rintro ⟨path, m, hpath, hm, he⟩
        cases path with
        | nil =>
            cases hpath
            exact .inl ⟨hm, he⟩
        | cons key path =>
            obtain ⟨child, hchild, hpath⟩ := Option.bind_eq_some_iff.1 hpath
            have hmem := Dict.mem_of_find? hchild
            exact .inr ⟨(key, child), hmem, (ih _ hmem).2 ⟨path, m, hpath, hm, he⟩⟩

end DeclaredNode

namespace Document

open DeclaredNode (HasPlainKeys)

/-- The resource that a node with methods becomes. -/
def resourceAt (d : Document) (name : String) (methods : Dict Method) : Resource :=
  resourceOf (ServiceId.toSql d.id) d.schemaSet name methods

variable {d : Document} {nodes : List (String × DeclaredNode)} {path : List String} {n : DeclaredNode}

/-- The resources by their names, before they are sorted. -/
theorem mem_resources (hresources : d.resources = DeclaredNode.toNodes nodes)
    (hsorted : (DeclaredNode.node [] nodes).Sorted) (hplain : (DeclaredNode.node [] nodes).HasPlainKeys)
    {name : String} {r : Resource} :
    (name, r) ∈ (flattenEach "" d.resources).map (fun (name, methods) => (name, d.resourceAt name methods)) ↔
      ∃ path n, (DeclaredNode.node [] nodes).below? path = some n ∧ n.methods ≠ [] ∧
        name = SchemaSet.dotted path ∧ r = d.resourceAt name n.toMethods := by
  have hflatten : flattenEach "" d.resources = flatten "" (DeclaredNode.node [] nodes).toNode := by
    rw [hresources, DeclaredNode.toNode, flatten]
    rfl
  rw [hflatten, List.mem_map]
  constructor
  · rintro ⟨e, he, heq⟩
    obtain ⟨path, n, hpath, hn, rfl⟩ := (DeclaredNode.mem_flatten hsorted).1 he
    cases heq
    exact ⟨path, n, hpath, hn, DeclaredNode.foldl_childName_root fun key hkey =>
      (hplain path n hpath key hkey).1, rfl⟩
  · rintro ⟨path, n, hpath, hn, rfl, rfl⟩
    have hname := DeclaredNode.foldl_childName_root fun key hkey => (hplain path n hpath key hkey).1
    refine ⟨(SchemaSet.dotted path, n.toMethods), (DeclaredNode.mem_flatten hsorted).2 ?_, rfl⟩
    exact ⟨path, n, hpath, hn, by rw [hname]⟩

/-- Where no key of the declared tree is empty or has a dot, the resources of the service are the nodes with
methods: each such node is the resource named by the dotted path to it, with the methods that it declares,
and each resource has one such path. -/
theorem resources_correspond {text : String} {d : Document} (h : ofText? text = some d)
    (entry : Option ServiceEntry) :
    ∃ root, DeclaredNode.ofText? text = some root ∧ (root.HasPlainKeys →
      (∀ path n, root.below? path = some n → n.methods ≠ [] →
        ∃ r, (d.toService entry).resource? (SchemaSet.dotted path) = some r ∧
          r.name = SchemaSet.dotted path ∧
          r.methods = n.methods.map fun (key, m) => (key, m.toMethod key)) ∧
      ∀ name r, (d.toService entry).resource? name = some r →
        ∃! path, SchemaSet.dotted path = name ∧ ∃ n, root.below? path = some n ∧ n.methods ≠ []) := by
  obtain ⟨nodes, hroot, hresources⟩ := resources_of_ofText? h
  refine ⟨.node [] nodes, hroot, fun hplain => ?_⟩
  have hmem {name : String} {r : Resource} :=
    @mem_resources _ _ hresources (DeclaredNode.sorted_of_ofText? hroot) hplain name r
  have hunique {path path' : List String} {n n' : DeclaredNode}
      (hpath : (DeclaredNode.node [] nodes).below? path = some n)
      (hpath' : (DeclaredNode.node [] nodes).below? path' = some n')
      (heq : SchemaSet.dotted path = SchemaSet.dotted path') : path = path' :=
    DeclaredNode.dotted_injective (hplain path n hpath) (hplain path' n' hpath') heq
  constructor
  · intro path n hpath hn
    refine ⟨d.resourceAt (SchemaSet.dotted path) n.toMethods, ?_, rfl, rfl⟩
    refine Dict.find?_ofEntries_of_mem (hmem.2 ⟨path, n, hpath, hn, rfl, rfl⟩) fun other hother => ?_
    obtain ⟨path', n', hpath', -, hname, rfl⟩ := hmem.1 hother
    obtain rfl := hunique hpath hpath' hname
    rw [hpath, Option.some.injEq] at hpath'
    rw [hpath']
  · intro name r hr
    obtain ⟨path, n, hpath, hn, rfl, -⟩ := hmem.1 (Dict.mem_ofEntries (Dict.mem_of_find? hr))
    refine ⟨path, ⟨rfl, n, hpath, hn⟩, ?_⟩
    rintro path' ⟨hname, n', hpath', -⟩
    exact hunique hpath' hpath hname

end Document

namespace Sample

/-- A document with a resource below another one, and one without methods. -/
def nestedText : String :=
  "\x7b\"resources\":\x7b\"disks\":\x7b\"methods\":\x7b\"get\":\x7b\x7d\x7d,\"resources\":\x7b" ++
    "\"labels\":\x7b\"methods\":\x7b\"set\":\x7b\"httpMethod\":\"post\",\"parameters\":\x7b" ++
    "\"disk\":\x7b\"location\":\"path\"\x7d,\"lock\":\x7b\"location\":\"query\"\x7d\x7d\x7d\x7d\x7d\x7d" ++
    "\x7d,\"zones\":\x7b\x7d\x7d\x7d"

/-- The method of the lower resource. -/
def setLabels : Method :=
  { id := "", name := "set", path := "", verb := "POST", description := ""
    parameters :=
      [("disk", { name := "disk", kind := "", format := "", place := .path, required := false
                  description := "" }),
        ("lock", { name := "lock", kind := "", format := "", place := .query, required := false
                   description := "" })]
    parameterOrder := [], request := none, response := none }

end Sample

namespace Document

open Sample

theorem resources_correspond_nested :
    ∃ d r, ofText? nestedText = some d ∧ (d.toService none).resource? "disks.labels" = some r ∧
      r.name = "disks.labels" ∧ r.methods = [("set", setLabels)] := by
  have hread : (ofText? nestedText).isSome = true ∧
      (DeclaredNode.ofText? nestedText).map (fun root => (root.hasPlainKeys,
        (root.below? ["disks", "labels"]).map (·.toMethods))) = some (true, some [("set", setLabels)]) := by
    decide +kernel
  obtain ⟨d, hd⟩ := Option.isSome_iff_exists.1 hread.1
  obtain ⟨root, hroot, hcorrespond⟩ := resources_correspond hd none
  rw [hroot, Option.map_some, Option.some.injEq, Prod.mk.injEq] at hread
  obtain ⟨-, hplain, hpath⟩ := hread
  obtain ⟨n, hpath, hmethods⟩ := Option.map_eq_some_iff.1 hpath
  have hn : n.methods ≠ [] := by
    intro hnil
    rw [DeclaredNode.toMethods, hnil] at hmethods
    cases hmethods
  obtain ⟨r, hr, hname, hdeclared⟩ :=
    (hcorrespond (DeclaredNode.hasPlainKeys_of_eq_true hplain)).1 _ n hpath hn
  exact ⟨d, r, hd, hr, hname, hdeclared.trans hmethods⟩

end Document
end RestSql
