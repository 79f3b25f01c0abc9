import Generation.Proofs.Schema.Recompilation

/-!
A document tells its tree. All but the names is told by what the document is built to when it is
taken as a description, and the names are told by the titles.
-/
namespace Generation.Schema

open Json (Members)

variable {v w : Json} {t u : Tree} {c d : Compiled} {documents : Members}
  {description description' : Option String} {properties others : List (Property Tree)}

/-- Nodes that come to the same with their descriptions agree in everything else. -/
theorem lookup_eq_of_describe_eq {members members' : Members}
    (h : describe description (.object members) = describe description' (.object members'))
    {key : String} (hkey : key ≠ "description") : members.lookup key = members'.lookup key := by
  rw [describe_object, describe_object, Json.object.injEq] at h
  calc
    members.lookup key = (described description members).lookup key :=
      (lookup_described_of_ne hkey).symm
    _ = (described description' members').lookup key := by rw [h]
    _ = members'.lookup key := lookup_described_of_ne hkey

/-- What is the same of two nodes with the same document: the descriptions, the names, and the trees
under new names. -/
theorem eq_of_describe_eq {a b : Json} (ht : Built t) (hu : Built u) (ha : document t = .ok a)
    (hb : document u = .ok b) (hagrees : Agrees description t) (hagrees' : Agrees description' u)
    (h : describe description a = describe description' b) :
    description = description' ∧ t.name? = u.name? ∧ t.renamed "" = u.renamed "" := by
  have hagain : Recompiles "" description a t := recompiles_document ht ha hagrees
  have hagain' : Recompiles "" description' b u := recompiles_document hu hb hagrees'
  obtain ⟨members, hmembers, hfound, hbuild⟩ := hagain
  obtain ⟨members', hmembers', hfound', hbuild'⟩ := hagain'
  obtain rfl : members = members' := Json.object.inj (by rw [← hmembers, h, hmembers'])
  have hdescription : description = description' := by
    rw [← ownDescription_of_lookup hfound, ownDescription_of_lookup hfound']
  have hrenamed : t.renamed "" = u.renamed "" :=
    Except.ok.inj (hbuild.symm.trans hbuild')
  refine ⟨hdescription, ?_, hrenamed⟩
  obtain ⟨own, rfl, hown⟩ := rendered_of_document ha
  obtain ⟨own', rfl, hown'⟩ := rendered_of_document hb
  have htitle := lookup_eq_of_describe_eq h (show "title" ≠ "description" by decide)
  rw [hown.hasHeading.title, hown'.hasHeading.title] at htitle
  exact Option.map_injective (fun a b h => Json.string.inj h) htitle

/-- Whatever tree has the same document, with the same description for it, is this tree. -/
def Told (t : Tree) : Prop :=
  ∀ ⦃u : Tree⦄ ⦃description description' : Option String⦄ ⦃a b : Json⦄, Built u →
    document t = .ok a → document u = .ok b → Agrees description t → Agrees description' u →
    describe description a = describe description' b → t = u

/-- Properties that are told one by one are told together. -/
theorem properties_eq (hproperties : ∀ p ∈ properties, Built p.schema ∧ Told p.schema ∧
      Agrees p.description p.schema)
    (hothers : ∀ p ∈ others, Built p.schema ∧ Agrees p.description p.schema)
    (hd : propertyDocuments properties = .ok documents)
    (hd' : propertyDocuments others = .ok documents)
    (hrenamed : renamedEach properties = renamedEach others) : properties = others := by
  induction properties generalizing others documents with
  | nil =>
    cases others with
    | nil => rfl
    | cons q qs => cases hrenamed
  | cons p ps ih =>
    cases others with
    | nil => cases hrenamed
    | cons q qs =>
      obtain ⟨node, rest, hnode, hrest, rfl⟩ := propertyDocuments_cons_eq_ok hd
      obtain ⟨node', rest', hnode', hrest', heq⟩ := propertyDocuments_cons_eq_ok hd'
      obtain ⟨hhead, rfl⟩ := List.cons.inj heq
      obtain ⟨hname, hdescribe⟩ := Prod.mk.inj hhead
      obtain ⟨hbuilt, htold, hagrees⟩ := hproperties p (by simp)
      obtain ⟨hbuilt', hagrees'⟩ := hothers q (by simp)
      have hschema := htold hbuilt' hnode hnode' hagrees hagrees' hdescribe
      obtain ⟨hdescription, -, -⟩ :=
        eq_of_describe_eq hbuilt hbuilt' hnode hnode' hagrees hagrees' hdescribe
      rw [renamedEach, renamedEach] at hrenamed
      obtain ⟨hp, hps⟩ := List.cons.inj hrenamed
      have hoptional : p.isOptional = q.isOptional := (Property.mk.inj hp).2.2.1
      have htail := ih (fun p' hp' => hproperties p' (by simp [hp']))
        (fun q' hq' => hothers q' (by simp [hq'])) hrest hrest' hps
      obtain ⟨pname, pdescription, poptional, pschema⟩ := p
      obtain ⟨qname, qdescription, qoptional, qschema⟩ := q
      dsimp only at hname hschema hdescription hoptional
      rw [hname, hschema, hdescription, hoptional, htail]

theorem told_object {name : String} {own : Option String}
    (hbuilt : Built (.object name own properties))
    (h : ∀ p ∈ properties, Built p.schema ∧ Told p.schema ∧ Agrees p.description p.schema) :
    Told (.object name own properties) := by
  intro u description description' a b hu ha hb hagrees hagrees' heq
  obtain ⟨hdescription, hname, hrenamed⟩ :=
    eq_of_describe_eq hbuilt hu ha hb hagrees hagrees' heq
  cases hu with
  | @object name' own' others _ hagreesEach hbuiltEach =>
    obtain rfl : name = name' := Option.some.inj hname
    obtain ⟨members, rfl, hrendered⟩ := rendered_of_document ha
    obtain ⟨members', rfl, hrendered'⟩ := rendered_of_document hb
    obtain ⟨documents, hdocuments, hlookup⟩ := lookup_properties hrendered
    obtain ⟨documents', hdocuments', hlookup'⟩ := lookup_properties hrendered'
    have hsame := lookup_eq_of_describe_eq heq (show "properties" ≠ "description" by decide)
    rw [hlookup, hlookup'] at hsame
    obtain rfl := Json.object.inj (Option.some.inj hsame)
    simp only [Tree.renamed, Tree.object.injEq, true_and] at hrenamed
    obtain ⟨rfl, hrenamed⟩ := hrenamed
    rw [properties_eq h (fun p hp => ⟨hbuiltEach p hp, hagreesEach p hp⟩) hdocuments hdocuments'
      hrenamed]
  | _ => simp [Tree.renamed] at hrenamed

theorem told_array {element : Tree} {least greatest : Option UInt64} (hbuilt : Built element)
    (h : Told element) : Told (.array element least greatest) := by
  intro u description description' a b hu ha hb hagrees hagrees' heq
  obtain ⟨hdescription, -, hrenamed⟩ :=
    eq_of_describe_eq (.array least greatest hbuilt) hu ha hb hagrees hagrees' heq
  cases hu with
  | @array element' least' greatest' hbuilt' =>
    obtain ⟨members, rfl, hrendered⟩ := rendered_of_document ha
    obtain ⟨members', rfl, hrendered'⟩ := rendered_of_document hb
    obtain ⟨items, hitems, hlookup⟩ := lookup_items hrendered
    obtain ⟨items', hitems', hlookup'⟩ := lookup_items hrendered'
    have hsame := lookup_eq_of_describe_eq heq (show "items" ≠ "description" by decide)
    rw [hlookup, hlookup'] at hsame
    obtain rfl := Option.some.inj hsame
    simp only [Tree.renamed, Tree.array.injEq] at hrenamed
    obtain ⟨-, rfl, rfl⟩ := hrenamed
    have hown : describe element.description? items = describe element'.description? items := by
      rw [describe_own hitems, describe_own hitems']
    rw [h hbuilt' hitems hitems' (agrees_own _) (agrees_own _) hown]
  | _ => simp [Tree.renamed] at hrenamed

/-- Every tree that is built is told by its document. -/
theorem told_of_built (ht : Built t) : Told t := by
  have hbuilt := ht
  induction ht with
  | object hnames hagrees hschemas ih =>
    exact told_object hbuilt fun p hp => ⟨hschemas p hp, ih p hp (hschemas p hp), hagrees p hp⟩
  | array least greatest helement ih => exact told_array helement (ih helement)
  | _ =>
    -- nothing stands below: name and description are all that is to be told
    intro u description description' a b hu ha hb hagrees hagrees' heq
    obtain ⟨-, hname, hrenamed⟩ := eq_of_describe_eq hbuilt hu ha hb hagrees hagrees' heq
    cases hu with
    | _ => simp_all [Tree.renamed, Tree.name?]

/-- Descriptions that are compiled to the same document are built to the same tree. -/
theorem root_eq_of_document_eq (hv : v.Sorted) (hw : w.Sorted) (hc : Compiled.ofJson v = .ok c)
    (hd : Compiled.ofJson w = .ok d) (h : c.document = d.document) :
    c.root = d.root ∧ buildRoot v = .ok c.root ∧ buildRoot w = .ok d.root := by
  obtain ⟨hbuild, hdocument⟩ := ofJson_eq_ok hc
  obtain ⟨hbuild', hdocument'⟩ := ofJson_eq_ok hd
  have hbuilt := built_of_buildRoot hv hbuild
  have hbuilt' := built_of_buildRoot hw hbuild'
  refine ⟨?_, hbuild, hbuild'⟩
  have hown : describe c.root.description? c.document = describe d.root.description? d.document := by
    rw [describe_own hdocument, describe_own hdocument', h]
  exact told_of_built hbuilt hbuilt' hdocument hdocument' (agrees_own _) (agrees_own _) hown

/-- The name of an array and the same name of its element come to the same. -/
theorem root_eq_of_document_eq_inherited_name :
    let v := Json.object [("items", .object [("anyOf", .array [.string "x"])]),
      ("name", .string "A")]
    let w := Json.object [("items", .object [("enum", .array [.string "x"]),
      ("name", .string "A")])]
    let t := Tree.array (.enumeration "A" none ["x"]) none none
    let d := Json.object [("items", .object [("enum", .array [.string "x"]),
      ("title", .string "A"), ("type", .string "string")]), ("type", .string "array")]
    v.Sorted ∧ w.Sorted ∧ Compiled.ofJson v = .ok ⟨t, d⟩ ∧ Compiled.ofJson w = .ok ⟨t, d⟩ ∧
      buildRoot v = .ok t ∧ buildRoot w = .ok t := by
  intro v w t d
  have hnames : Json.Sorted (.array [.string "x"]) := by
    refine .array fun x hx => ?_
    obtain rfl := List.mem_singleton.mp hx
    exact .string "x"
  have hv : v.Sorted := by
    refine .object (Json.ascending_of_names (show ["items", "name"].Pairwise (· < ·) by decide)) ?_
    intro m hm
    simp only [List.mem_cons, List.not_mem_nil, or_false] at hm
    rcases hm with rfl | rfl
    · refine .object (List.pairwise_singleton _ _) fun m hm => ?_
      obtain rfl := List.mem_singleton.mp hm
      exact hnames
    · exact .string "A"
  have hw : w.Sorted := by
    refine .object (List.pairwise_singleton _ _) fun m hm => ?_
    obtain rfl := List.mem_singleton.mp hm
    refine .object (Json.ascending_of_names (show ["enum", "name"].Pairwise (· < ·) by decide)) ?_
    intro m hm
    simp only [List.mem_cons, List.not_mem_nil, or_false] at hm
    rcases hm with rfl | rfl
    · exact hnames
    · exact .string "A"
  have hc : Compiled.ofJson v = .ok ⟨t, d⟩ := rfl
  have hd : Compiled.ofJson w = .ok ⟨t, d⟩ := rfl
  obtain ⟨-, hbuild, hbuild'⟩ := root_eq_of_document_eq hv hw hc hd rfl
  exact ⟨hv, hw, hc, hd, hbuild, hbuild'⟩

end Generation.Schema
