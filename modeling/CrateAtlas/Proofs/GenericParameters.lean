import CrateAtlas.Proofs.ReferenceOrigins

/-!
# Generic parameters and the names of types

The name of a type is a reference unless it starts with {lit}`Self` or with a type parameter in
scope, one that is declared by the node of the element or by a node around it.  Parameters are
written in several forms, plain, with bounds or with a default, and the form decides where the name
stands.  Constant parameters have none of these forms, and their names count as references.

Main results:

- Theorem {lit}`parameterName?_eq_some_iff`: the names of parameters in all their forms.
- Theorem {lit}`elementsOf_readIn`: the nodes around an element are those above its position.
- Theorem {lit}`mem_genericNames_iff`: the names that are kept out are those in scope.
- Theorem {lit}`build_typeNames`: which names of types are references.
-/

namespace CrateAtlas

/-! ## Names of parameters -/

namespace Node

/-- A type parameter is named by a node: by itself if it is plain, and by what stands under the
first of the fields for its name otherwise. -/
inductive NamesParameter : (parameter ident : Node) → Prop
  | plain {ident} : ident.kind = "type_identifier" → NamesParameter ident ident
  | named {parameter inner ident} : parameter.isTypeParameter = true →
      parameter.child? "name" = some inner → NamesParameter inner ident →
      NamesParameter parameter ident
  | left {parameter inner ident} : parameter.isTypeParameter = true →
      parameter.child? "name" = none → parameter.child? "left" = some inner →
      NamesParameter inner ident → NamesParameter parameter ident

/-- A node declares a type parameter with its name at a node. -/
def DeclaresType (node ident : Node) : Prop :=
  ∃ parameters, node.child? "type_parameters" = some parameters ∧
    ∃ parameter ∈ parameters.namedChildren, NamesParameter parameter ident

/-- A node declares a constant parameter with its name at a node. -/
def DeclaresConst (node ident : Node) : Prop :=
  ∃ parameters, node.child? "type_parameters" = some parameters ∧
    ∃ parameter ∈ parameters.namedChildren,
      parameter.kind = "const_parameter" ∧ parameter.child? "name" = some ident

variable {node child ident : Node} {field : String}

theorem parameterNameUnder_eq (node : Node) (field : String) :
    parameterNameUnder field node.children = (node.child? field).map parameterName? := by
  unfold child?
  induction node.children with
  | nil => rw [parameterNameUnder, List.find?_nil, Option.map_none]
  | cons first rest ih =>
      rw [parameterNameUnder, List.find?_cons, ih]
      cases first.label.field == field <;> rfl

theorem parameterName?_eq (node : Node) :
    node.parameterName? =
      if node.kind = "type_identifier" then some node
      else if node.isTypeParameter then
        ((node.child? "name").map parameterName?).getD
          ((node.child? "left").bind parameterName?)
      else none := by
  have hleft : (node.child? "left").bind parameterName? =
      (parameterNameUnder "left" node.children).getD none := by
    rw [parameterNameUnder_eq]
    cases node.child? "left" <;> rfl
  rw [hleft, ← parameterNameUnder_eq]
  cases node with
  | mk label children =>
      rw [parameterName?, children_mk]
      cases parameterNameUnder "name" children <;> rfl

theorem mem_of_child? (h : node.child? field = some child) : child ∈ node.children :=
  List.mem_of_find?_eq_some h

/-- A plain name of a type has none of the forms that wrap a name. -/
theorem kind_ne_of_isTypeParameter (h : node.isTypeParameter = true) :
    node.kind ≠ "type_identifier" := by
  intro hkind
  simp [isTypeParameter, hkind] at h

/-- The reader finds the name of a type parameter in all its forms. -/
theorem parameterName?_eq_some_iff :
    node.parameterName? = some ident ↔ NamesParameter node ident := by
  constructor
  · intro h
    induction node using inductionOn_children with
    | step node ih =>
        rw [parameterName?_eq] at h
        split_ifs at h with hplain hparameter
        · obtain rfl := Option.some.inj h
          exact .plain hplain
        · cases hname : node.child? "name" with
          | some inner =>
              rw [hname, Option.map_some, Option.getD_some] at h
              exact .named hparameter hname (ih inner (mem_of_child? hname) h)
          | none =>
              rw [hname, Option.map_none, Option.getD_none] at h
              obtain ⟨inner, hleft, h⟩ := Option.bind_eq_some_iff.mp h
              exact .left hparameter hname hleft (ih inner (mem_of_child? hleft) h)
  · intro h
    induction h with
    | plain hplain => rw [parameterName?_eq, if_pos hplain]
    | named hparameter hname _ ih =>
        rw [parameterName?_eq, if_neg (kind_ne_of_isTypeParameter hparameter), if_pos hparameter,
          hname]
        exact ih
    | left hparameter hname hleft _ ih =>
        rw [parameterName?_eq, if_neg (kind_ne_of_isTypeParameter hparameter), if_pos hparameter,
          hname, hleft]
        exact ih

theorem mem_parameterNames_iff : ident ∈ node.parameterNames ↔ DeclaresType node ident := by
  unfold parameterNames DeclaresType
  cases node.child? "type_parameters" with
  | none => simp
  | some parameters => simp [List.mem_filterMap, parameterName?_eq_some_iff]

end Node

/-! ## The nodes above an element -/

/-- A node stands at a position or above it. -/
def AtOrAbove (root : Node) (position : Position) (outer : Node) : Prop :=
  ∃ p, p <+: position ∧ root.at? p = some outer

/-- A node stands at a position or above it, but below the root. -/
def Between (root : Node) (position : Position) (outer : Node) : Prop :=
  ∃ p, p ≠ [] ∧ p <+: position ∧ root.at? p = some outer

section

variable {file : SourceFile} {root container node body outer : Node} {around : List Node}
  {position : Position} {item : Item} {i j : Nat}

theorem atOrAbove_iff :
    AtOrAbove root position outer ↔ outer = root ∨ Between root position outer := by
  constructor
  · rintro ⟨p, hprefix, hat⟩
    cases p with
    | nil => exact .inl (Option.some.inj hat).symm
    | cons i rest => exact .inr ⟨_, List.cons_ne_nil _ _, hprefix, hat⟩
  · rintro (rfl | ⟨p, -, hprefix, hat⟩)
    · exact ⟨[], List.nil_prefix, rfl⟩
    · exact ⟨p, hprefix, hat⟩

/-- Below a child there is the child, and what is there from the child on. -/
theorem between_cons_iff (hget : container.children[i]? = some node) :
    Between container (i :: position) outer ↔ AtOrAbove node position outer := by
  constructor
  · rintro ⟨p, hne, hprefix, hat⟩
    obtain rfl | ⟨rest, rfl, hrest⟩ := List.prefix_cons_iff.mp hprefix
    · contradiction
    · obtain ⟨first, hfirst, hbelow⟩ := Node.at?_cons_eq_some_iff.mp hat
      obtain rfl := Option.some.inj (hget.symm.trans hfirst)
      exact ⟨rest, hrest, hbelow⟩
  · rintro ⟨p, hprefix, hat⟩
    exact ⟨i :: p, List.cons_ne_nil _ _, List.cons_prefix_cons.mpr ⟨rfl, hprefix⟩,
      Node.at?_cons_eq_some_iff.mpr ⟨node, hget, hat⟩⟩

/-- The uses of an item are read with the nodes between the item and a container, and those around
the container. -/
def ReadBelow (file : SourceFile) (around : List Node) (container : Node) (s : Position × Site)
    (item : Item) : Prop :=
  item.summary = s.2.summary file ∧
    ∃ between, (∀ outer, outer ∈ s.2.node :: between ↔ Between container s.1 outer) ∧
      Usage.ofItem file.source (between ++ around) s.2.kind s.2.node = .ok item.usages

/-- Between a container and its child there is nothing. -/
theorem ReadBelow.here {pre rest before : List Node} {forced : Option Visibility} {kind : Kind}
    {named : ItemName} {notes : List Docs.Note} {visibility : Visibility}
    (hstands : Stands container pre node rest before)
    (htakes : Declaration.Takes file around forced before node kind named notes visibility item) :
    ReadBelow file around container ([pre.length], ⟨node, kind, named.name, visibility⟩) item := by
  refine ⟨htakes.summary_eq, [], ?_, htakes.usages_eq⟩
  intro outer
  rw [between_cons_iff hstands.getElem?_eq, atOrAbove_iff, List.mem_singleton]
  constructor
  · exact .inl
  · rintro (rfl | ⟨p, hne, hprefix, -⟩)
    · rfl
    · exact (hne (List.prefix_nil.mp hprefix)).elim

/-- Between a container and what is in the body of its child there are the child and the body. -/
theorem ReadBelow.under (hnode : container.children[i]? = some node)
    (hbody : node.children[j]? = some body) (s : Position × Site) (item : Item)
    (h : ReadBelow file (body :: node :: around) body s item) :
    ReadBelow file around container (Position.under i j s) item := by
  obtain ⟨hsummary, between, hbetween, husages⟩ := h
  refine ⟨hsummary, between ++ [body, node], ?_, ?_⟩
  · -- Down from the container: first the child, then its body, then what was between before.
    intro outer
    show outer ∈ s.2.node :: (between ++ [body, node]) ↔ Between container (i :: j :: s.1) outer
    rw [between_cons_iff hnode, atOrAbove_iff, between_cons_iff hbody, atOrAbove_iff, ← hbetween,
      ← List.cons_append, List.mem_append, List.mem_pair]
    tauto
  · rw [List.append_assoc]
    exact husages

/-- The uses of an element are read with the nodes at its position and above. -/
structure ReadIn (file : SourceFile) (root : Node) (s : Position × Site) (item : Item) : Prop where
  summary_eq : item.summary = s.2.summary file
  usages_eq : ∃ around, (∀ outer, outer ∈ s.2.node :: around ↔ AtOrAbove root s.1 outer) ∧
    Usage.ofItem file.source around s.2.kind s.2.node = .ok item.usages

/-- The elements of a file one by one with the sites where they are declared, and with the nodes
above them. -/
theorem elementsOf_readIn {elements : List Element} (h : elementsOf file root = .ok elements) :
    ∃ sites : List (Position × Site),
      (sites.map Prod.fst).Pairwise (· < ·) ∧
      (∀ s ∈ sites, Declared file root none s.1 s.2) ∧
      List.Forall₂ (fun s element => ReadIn file root s element.item) sites elements := by
  obtain ⟨sites, hordered, hdeclared, hread⟩ :=
    elementsOf_related (R := ReadBelow file) ReadBelow.here ReadBelow.under h
  refine ⟨sites, hordered, hdeclared, hread.imp ?_⟩
  rintro s element ⟨hsummary, between, hbetween, husages⟩
  refine ⟨hsummary, between ++ [root], ?_, husages⟩
  intro outer
  rw [atOrAbove_iff, ← hbetween, ← List.cons_append, List.mem_append, List.mem_singleton, or_comm]

/-! ## Names in scope -/

/-- A name is that of a type parameter in scope: it is declared at a position or above. -/
def InScope (source : Source) (root : Node) (position : Position) (name : String) : Prop :=
  ∃ outer ident written, AtOrAbove root position outer ∧ outer.DeclaresType ident ∧
    source.text ident.label = .ok written ∧ ScopePath.normalize written = name

/-- A path to a type leads out of the declaration: it starts neither with {lit}`Self` nor with a
type parameter in scope. -/
def LeadsOut (source : Source) (root : Node) (position : Position) (path : String) : Prop :=
  ∃ first rest, ScopePath.split path = first :: rest ∧ first ≠ "Self" ∧
    ¬InScope source root position first

variable {source : Source} {generics : List String} {path : String}

/-- The names that are kept out are those of the type parameters in scope. -/
theorem mem_genericNames_iff {chain : List Node} {name : String}
    (h : genericNames source chain = .ok generics)
    (hchain : ∀ outer, outer ∈ chain ↔ AtOrAbove root position outer) :
    name ∈ generics ↔ InScope source root position name := by
  have hread := Outcome.forall₂_of_mapM_eq_ok h
  constructor
  · intro hname
    obtain ⟨ident, hident, hnormal⟩ := Outcome.exists_partner hread name hname
    obtain ⟨outer, houter, hdeclared⟩ := List.mem_flatMap.mp hident
    obtain ⟨written, hwritten, rfl⟩ := Outcome.map_eq_ok_iff.mp hnormal
    exact ⟨outer, ident, written, (hchain outer).mp houter,
      Node.mem_parameterNames_iff.mp hdeclared, hwritten, rfl⟩
  · rintro ⟨outer, ident, written, habove, hdeclared, hwritten, rfl⟩
    have hident : ident ∈ chain.flatMap Node.parameterNames :=
      List.mem_flatMap.mpr ⟨outer, (hchain outer).mpr habove,
        Node.mem_parameterNames_iff.mpr hdeclared⟩
    obtain ⟨name, hname, hnormal⟩ := Outcome.exists_partner hread.flip ident hident
    rw [hwritten] at hnormal
    exact Except.ok.inj hnormal ▸ hname

/-- A type name is not kept out exactly if it leads out of the declaration. -/
theorem isLocalType_eq_false_iff
    (hnames : ∀ name, name ∈ generics ↔ InScope source root position name) :
    Usage.isLocalType generics path = false ↔ LeadsOut source root position path := by
  unfold Usage.isLocalType LeadsOut
  cases ScopePath.split path with
  | nil => simp
  | cons first rest => simp [← hnames]

/-! ## Names of types among the references -/

namespace Usage

variable {kind : Kind} {usages : List Usage}

/-- A declaration whose uses of names count is read with the names of the type parameters in scope:
all its uses can be read, and its usages are what is found there. -/
theorem read_of_ofItem (h : ofItem source around kind node = .ok usages) (hspeaks : Speaks kind) :
    ∃ generics, genericNames source (node :: around) = .ok generics ∧
      (∀ use ∈ UsageSite.usesOf kind node, ∃ found, ofSite source generics use.site = .ok found) ∧
      ∀ usage, usage ∈ usages ↔
        ∃ use ∈ UsageSite.usesOf kind node, ofSite source generics use.site = .ok (some usage) := by
  rw [ofItem, if_neg (not_or.mpr hspeaks)] at h
  simp only [Outcome.bind_eq_ok_iff, Outcome.pure_eq_ok_iff] at h
  obtain ⟨generics, hgenerics, found, hfound, rfl⟩ := h
  rw [← UsageSite.usesOf_sites] at hfound
  have hread := List.forall₂_map_left_iff.mp (Outcome.forall₂_of_mapM_eq_ok hfound)
  refine ⟨generics, hgenerics, ?_, ?_⟩
  · intro use huse
    obtain ⟨result, -, hresult⟩ := Outcome.exists_partner hread.flip use huse
    exact ⟨result, hresult⟩
  · intro usage
    simp only [List.mem_filterMap, id_eq, exists_eq_right]
    constructor
    · exact Outcome.exists_partner hread (some usage)
    · rintro ⟨use, huse, hsome⟩
      obtain ⟨result, hmem, hresult⟩ := Outcome.exists_partner hread.flip use huse
      exact Except.ok.inj (hresult.symm.trans hsome) ▸ hmem

/-- The name of a type is a usage unless it is kept out. -/
theorem ofSite_eq_some_iff {site : UsageSite} {usage : Usage} (hform : site.form = .typeName) :
    ofSite source generics site = .ok (some usage) ↔
      ∃ written, source.text site.label = .ok written ∧
        isLocalType generics (ScopePath.withoutGenerics (ScopePath.normalize written)) = false ∧
        usage = ⟨.typeUsage, ScopePath.withoutGenerics (ScopePath.normalize written),
          site.label⟩ := by
  obtain ⟨form, label⟩ := site
  obtain rfl : form = .typeName := hform
  rw [ofSite, Outcome.map_eq_ok_iff]
  refine exists_congr fun written => and_congr_right fun _ => ?_
  simp only [UsageForm.reads, UsageForm.referenceType, true_and]
  cases hlocal : isLocalType generics
      (ScopePath.withoutGenerics (ScopePath.normalize written)) with
  | true => simp
  | false =>
      -- An empty path has no first segment, so that it is kept out.
      have hne : ScopePath.withoutGenerics (ScopePath.normalize written) ≠ "" := by
        intro hempty
        rw [hempty] at hlocal
        cases hlocal
      simp [hne, eq_comm]

/-- Only names of types give usages of types. -/
theorem form_eq_of_ofSite {site : UsageSite} {usage : Usage}
    (h : ofSite source generics site = .ok (some usage)) (htype : usage.type = .typeUsage) :
    site.form = .typeName := by
  obtain ⟨written, -, hread⟩ := Outcome.map_eq_ok_iff.mp h
  simp only at hread
  split_ifs at hread
  obtain rfl := Option.some.inj hread
  obtain ⟨form, label⟩ := site
  cases form <;> simp_all [UsageForm.referenceType]

end Usage

/-- The usages of types among the references of an element. -/
structure TypeNames (file : SourceFile) (root : Node) (s : Position × Site)
    (references : List Reference) : Prop where
  /-- They lead out of the element and of everything around it. -/
  leadsOut : ∀ reference ∈ references, reference.type = .typeUsage →
    LeadsOut file.source root s.1 reference.text
  /-- All names of types that do are among them. -/
  complete : Speaks s.2.kind → ∀ use ∈ UsageSite.usesOf s.2.kind s.2.node,
    use.site.form = .typeName → ∃ written, file.source.text use.site.label = .ok written ∧
      (LeadsOut file.source root s.1 (ScopePath.withoutGenerics (ScopePath.normalize written)) →
        ∃ reference ∈ references, reference.type = .typeUsage ∧
          reference.text = ScopePath.withoutGenerics (ScopePath.normalize written) ∧
          reference.location = Location.of file.source file.path use.site.label)

/-- The usages of types are settled when an element is read. -/
theorem typeNames_of_readIn {s : Position × Site} {element : Element}
    (hread : ReadIn file root s element.item) :
    TypeNames file root s (element.references file) := by
  obtain ⟨around, habove, husages⟩ := hread.usages_eq
  by_cases hspeaks : Speaks s.2.kind
  · obtain ⟨generics, hgenerics, hreadable, hmem⟩ := Usage.read_of_ofItem husages hspeaks
    have hlocal : ∀ path, Usage.isLocalType generics path = false ↔
        LeadsOut file.source root s.1 path :=
      fun _ => isLocalType_eq_false_iff fun _ => mem_genericNames_iff hgenerics habove
    constructor
    case leadsOut =>
      intro reference hreference htype
      obtain ⟨usage, husage, rfl⟩ := List.mem_map.mp hreference
      obtain ⟨use, -, hsite⟩ := (hmem usage).mp husage
      obtain ⟨written, -, hfree, rfl⟩ :=
        (Usage.ofSite_eq_some_iff (Usage.form_eq_of_ofSite hsite htype)).mp hsite
      exact (hlocal _).mp hfree
    case complete =>
      intro _ use huse hform
      obtain ⟨found, hfound⟩ := hreadable use huse
      obtain ⟨written, hwritten, -⟩ := Outcome.map_eq_ok_iff.mp hfound
      refine ⟨written, hwritten, ?_⟩
      intro hleads
      have hsite := (Usage.ofSite_eq_some_iff hform).mpr
        ⟨written, hwritten, (hlocal _).mpr hleads, rfl⟩
      exact ⟨_, List.mem_map_of_mem ((hmem _).mpr ⟨use, huse, hsite⟩), rfl, rfl, rfl⟩
  · have hsilent : element.references file = [] := by
      rcases Usage.taken_of_ofItem husages with ⟨-, hnil⟩ | ⟨hspeaks', -⟩
      · rw [Element.references_eq, hnil, List.map_nil]
      · exact (hspeaks hspeaks').elim
    rw [hsilent]
    exact ⟨by simp, fun hspeaks' => (hspeaks hspeaks').elim⟩

/-- Targets play no part in the usages of types. -/
theorem TypeNames.settle {s : Position × Site} {references : List Reference}
    (h : TypeNames file root s references) (target : Reference → Option String) :
    TypeNames file root s
      (references.map fun reference => { reference with target := target reference }) := by
  constructor
  case leadsOut =>
    intro reference hreference
    obtain ⟨unsettled, hunsettled, rfl⟩ := List.mem_map.mp hreference
    exact h.leadsOut unsettled hunsettled
  case complete =>
    intro hspeaks use huse hform
    obtain ⟨written, hwritten, hfound⟩ := h.complete hspeaks use huse hform
    refine ⟨written, hwritten, ?_⟩
    intro hleads
    obtain ⟨reference, hreference, hfacts⟩ := hfound hleads
    exact ⟨_, List.mem_map_of_mem hreference, hfacts⟩

/-- In the model of a file, no usage of a type starts with {lit}`Self` or with a type parameter that
is declared by the node of its element or by a node above it.  All other names of types that the
element uses are among its references. -/
theorem FileModel.build_typeNames {path : String} {text : String} {model : FileModel}
    (h : FileModel.build path file text root = .ok model) :
    ∃ sites : List (Position × Site),
      (sites.map Prod.fst).Pairwise (· < ·) ∧
      (∀ s ∈ sites, Declared file root none s.1 s.2) ∧
      List.Forall₂ (fun s e => e.item.summary = s.2.summary file ∧
        TypeNames file root s (model.referencesOf e)) sites model.elements := by
  obtain ⟨helements, target, hreferences⟩ := FileModel.referencesOf_of_build h
  obtain ⟨sites, hordered, hdeclared, hread⟩ := elementsOf_readIn helements
  refine ⟨sites, hordered, hdeclared, ?_⟩
  rw [List.forall₂_iff_zip] at hread ⊢
  refine ⟨hread.1, ?_⟩
  intro s e hpair
  have hreadIn := hread.2 hpair
  rw [hreferences e (List.of_mem_zip hpair).2]
  exact ⟨hreadIn.summary_eq, (typeNames_of_readIn hreadIn).settle target⟩

end

/-! ## An impl block with a type parameter and a constant parameter -/

namespace Sample

/-- An impl block with two parameters, and a method that uses one of them. -/
def constText : String :=
  "impl<T,const N:usize>S<T,N>\x7bfn f(x:B<T>)\x7b\x7d\x7d"

/-- The node of the name of the constant parameter. -/
def constName : Node :=
  node "identifier" "name" 13 14 []

/-- The node of the impl block. -/
def constImpl : Node :=
  node "impl_item" "" 0 43
    [node "type_parameters" "type_parameters" 4 21
      [node "type_parameter" "" 5 6 [node "type_identifier" "name" 5 6 []],
        node "const_parameter" "" 7 20 [constName, node "primitive_type" "type" 15 20 []]],
      node "generic_type" "type" 21 27
        [node "type_identifier" "type" 21 22 [],
          node "type_arguments" "type_arguments" 22 27
            [node "type_identifier" "" 23 24 [], node "type_identifier" "" 25 26 []]],
      node "declaration_list" "body" 27 43
        [node "function_item" "" 28 42
          [node "identifier" "name" 31 32 [],
            node "parameters" "parameters" 32 40
              [node "parameter" "" 33 39
                [node "identifier" "pattern" 33 34 [],
                  node "generic_type" "type" 35 39
                    [node "type_identifier" "type" 35 36 [],
                      node "type_arguments" "type_arguments" 36 39
                        [node "type_identifier" "" 37 38 []]]]],
            node "block" "body" 40 42 []]]]

/-- The tree of that text. -/
def constRoot : Node :=
  node "source_file" "" 0 43 [constImpl]

/-- The text as a file. -/
def constFile : SourceFile :=
  ⟨constText.toUTF8.toList, "src/a.rs", ⟨true, true⟩⟩

end Sample

/-- The type parameter is kept out of the references of the impl block and of its method. -/
theorem FileModel.build_typeNames_sample :
    ∃ model, FileModel.build "/p/src/a.rs" Sample.constFile Sample.constText Sample.constRoot =
        .ok model ∧
      model.elements.map (fun e => (model.referencesOf e).map Reference.text) =
        [["S", "N"], ["B"]] ∧
      ∃ sites : List (Position × Site),
        (sites.map Prod.fst).Pairwise (· < ·) ∧
        (∀ s ∈ sites, Declared Sample.constFile Sample.constRoot none s.1 s.2) ∧
        List.Forall₂ (fun s e => e.item.summary = s.2.summary Sample.constFile ∧
          TypeNames Sample.constFile Sample.constRoot s (model.referencesOf e))
          sites model.elements := by
  have htexts : (FileModel.build "/p/src/a.rs" Sample.constFile Sample.constText
      Sample.constRoot).map (fun model =>
        model.elements.map fun e => (model.referencesOf e).map Reference.text) =
      .ok [["S", "N"], ["B"]] := by
    decide +kernel
  obtain ⟨model, h, htexts⟩ := Outcome.map_eq_ok_iff.mp htexts
  exact ⟨model, h, htexts, FileModel.build_typeNames h⟩

/-- The constant parameter is not: where the impl block uses it as a type argument, it gives a
reference. -/
theorem FileModel.build_typeNames_const :
    ∃ model, FileModel.build "/p/src/a.rs" Sample.constFile Sample.constText Sample.constRoot =
        .ok model ∧
      Sample.constRoot.at? [0] = some Sample.constImpl ∧
      Sample.constImpl.DeclaresConst Sample.constName ∧
      Sample.constFile.source.text Sample.constName.label = .ok "N" ∧
      ∃ e ∈ model.elements, e.item.location =
          Location.of Sample.constFile.source Sample.constFile.path Sample.constImpl.label ∧
        ∃ reference ∈ model.referencesOf e, reference.type = .typeUsage ∧
          ScopePath.split reference.text = ["N"] := by
  have hreference : (FileModel.build "/p/src/a.rs" Sample.constFile Sample.constText
      Sample.constRoot).map (fun model => decide (∃ e ∈ model.elements, e.item.location =
          Location.of Sample.constFile.source Sample.constFile.path Sample.constImpl.label ∧
        ∃ reference ∈ model.referencesOf e, reference.type = .typeUsage ∧
          ScopePath.split reference.text = ["N"])) = .ok true := by
    decide +kernel
  obtain ⟨model, h, hreference⟩ := Outcome.map_eq_ok_iff.mp hreference
  refine ⟨model, h, rfl, ?_, by decide +kernel, of_decide_eq_true hreference⟩
  exact ⟨_, rfl, _, List.mem_cons_of_mem _ List.mem_cons_self, rfl, rfl⟩

end CrateAtlas
