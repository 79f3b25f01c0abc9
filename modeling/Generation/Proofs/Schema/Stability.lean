import Generation.Proofs.Json.Parsed
import Generation.Proofs.Json.RoundTrip
import Generation.Proofs.Schema.Recompilation

/-!
The texts of documents: they are read back, and what is compiled from them is compiled to itself
from then on.
-/
namespace Generation.Schema

open Json (Members)

variable {name key : String} {members documents : Members} {d v : Json} {t : Tree}
  {description : Option String} {properties : List (Property Tree)}

/-- A value whose text is read as that value, if it does not nest too deep. -/
def ReadsBack (v : Json) : Prop := v.Sorted ∧ v.Exact

theorem ReadsBack.string (text : String) : ReadsBack (.string text) := ⟨.string text, .string text⟩

theorem ReadsBack.strings (names : List String) : ReadsBack (.array (names.map .string)) := by
  constructor
  · refine .array fun v hv => ?_
    obtain ⟨n, -, rfl⟩ := List.mem_map.mp hv
    exact .string n
  · refine .array fun v hv => ?_
    obtain ⟨n, -, rfl⟩ := List.mem_map.mp hv
    exact .string n

theorem ReadsBack.wordJson (n : UInt64) : ReadsBack (wordJson n) := by
  have hhigh : (n.toNat : Int) < 2 ^ 64 := by exact_mod_cast n.toNat_lt
  exact ⟨.number _, .number (Json.Read.numberReadBy_integerText (by omega) hhigh)⟩

theorem ReadsBack.object (hascending : Json.Ascending members)
    (h : ∀ m ∈ members, ReadsBack m.2) : ReadsBack (.object members) :=
  ⟨.object hascending fun m hm => (h m hm).1, .object fun m hm => (h m hm).2⟩

theorem ReadsBack.describe (h : ReadsBack (.object members)) :
    ReadsBack (describe description (.object members)) := by
  obtain ⟨_ | _ | _ | _ | _ | ⟨hascending, hsorted⟩, _ | _ | _ | _ | _ | hexact⟩ := h
  rw [describe_object]
  refine .object (ascending_described hascending) fun m hm => ?_
  rcases mem_described hm with ⟨text, rfl⟩ | hm
  · exact .string text
  · exact ⟨hsorted m hm, hexact m hm⟩

/-- The members of a node stand in ascending order. -/
theorem Rendered.ascending (h : Rendered t members) : Json.Ascending members := by
  refine Json.ascending_of_names ?_
  cases h with
  | @array element least greatest =>
    cases least <;> cases greatest <;> simp only [member?, List.map_cons, List.map_nil,
      List.cons_append, List.nil_append] <;> decide
  | primitive kind => exact List.pairwise_singleton _ _
  | @object name description | @enumeration name description | @leaf name description =>
    cases description <;> simp only [member?, List.map_cons, List.map_nil, List.cons_append,
      List.nil_append] <;> decide

theorem readsBack_of_nodeMember {m : String × Json} (hb : Built t) (h : NodeMember t m)
    (hbelow : ∀ u, Below u t → ∀ d, document u = .ok d → ReadsBack d) : ReadsBack m.2 := by
  cases h with
  | closed => exact ⟨.boolean false, .boolean false⟩
  | @properties _ _ properties documents hdocuments =>
    cases hb with
    | object hnames =>
      refine .object ?_ fun m hm => ?_
      · have hmap := List.pairwise_map (f := Property.name) (R := (· < ·)).mpr hnames
        rw [← names_of_propertyDocuments hdocuments] at hmap
        exact List.pairwise_map.mp hmap
      · obtain ⟨p, hp, node, hnode, rfl⟩ := mem_of_propertyDocuments hdocuments hm
        have hreads := hbelow _ (.property hp) node hnode
        obtain ⟨inner, rfl, -⟩ := rendered_of_document hnode
        exact hreads.describe
  | @required _ _ properties =>
    have hrequired := ReadsBack.strings ((properties.filter (!·.isOptional)).map Property.name)
    rwa [List.map_map] at hrequired
  | items hitems => exact hbelow _ .element _ hitems
  | greatest n | least n => exact .wordJson n
  | variants variants => exact .strings variants
  | description | title | type => exact .string _

theorem readsBack_document (hb : Built t) (hd : document t = .ok d) : ReadsBack d := by
  refine hb.below_induction (P := fun t => ∀ d, document t = .ok d → ReadsBack d) ?_ d hd
  intro t hb hbelow d hd
  obtain ⟨members, rfl, hr⟩ := rendered_of_document hd
  exact .object hr.ascending fun m hm => readsBack_of_nodeMember hb (hr.nodeMember hm) hbelow

/-! Nesting. A document nests no deeper than the description that it was built from. -/

variable {n : Nat}

theorem within_strings (names : List String) : Json.Within (n + 1) (.array (names.map .string)) := by
  refine .array fun v hv => ?_
  obtain ⟨text, -, rfl⟩ := List.mem_map.mp hv
  exact .string n text

theorem within_describe (h : d.Within n) : (describe description d).Within n := by
  cases h with
  | object hsub =>
    rw [describe_object]
    refine .object fun m hm => ?_
    rcases mem_described hm with ⟨text, rfl⟩ | hm
    · exact .string _ text
    · exact hsub m hm
  | _ => cases description <;> constructor <;> assumption

theorem mem_of_strings? {names : List String} (h : strings? members key = some names) :
    ∃ items, (key, .array items) ∈ members := by
  obtain ⟨items, hitems, -⟩ := Option.bind_eq_some_iff.mp h
  obtain ⟨v, hv, harray⟩ := Option.bind_eq_some_iff.mp hitems
  obtain rfl : v = .array items := by cases v <;> simp_all [Json.array?]
  exact ⟨items, Json.mem_of_lookup hv⟩

theorem mem_of_variants? {variants : List String} (h : variants? members = some variants) :
    ∃ key items, (key, .array items) ∈ members := by
  rcases Option.or_eq_some_iff.mp h with h | ⟨-, h⟩
  · exact ⟨_, mem_of_strings? h⟩
  · exact ⟨_, mem_of_strings? h⟩

theorem within_of_enumeration {variants : List String}
    (hd : document (.enumeration name description variants) = .ok d) : d.Within (n + 2) := by
  obtain ⟨members, rfl, hr⟩ := rendered_of_document hd
  refine .object fun m hm => ?_
  cases hr.nodeMember hm with
  | variants => exact within_strings variants
  | description | title | type => exact .string _ _

theorem within_of_array {least greatest : Option UInt64}
    (hd : document (.array t least greatest) = .ok d)
    (h : ∀ items, document t = .ok items → items.Within n) : d.Within (n + 1) := by
  obtain ⟨members, rfl, hr⟩ := rendered_of_document hd
  refine .object fun m hm => ?_
  cases hr.nodeMember hm with
  | items hitems => exact h _ hitems
  | greatest | least => exact .number _ _
  | description | title | type => exact .string _ _

theorem within_of_object (hd : document (.object name description properties) = .ok d)
    (h : ∀ p ∈ properties, ∀ node, document p.schema = .ok node → node.Within n) :
    d.Within (n + 2) := by
  obtain ⟨members, rfl, hr⟩ := rendered_of_document hd
  refine .object fun m hm => ?_
  cases hr.nodeMember hm with
  | closed => exact .boolean _ _
  | properties hdocuments =>
    refine .object fun m hm => ?_
    obtain ⟨p, hp, node, hnode, rfl⟩ := mem_of_propertyDocuments hdocuments hm
    exact within_describe (h p hp node hnode)
  | required =>
    have hrequired := within_strings (n := n)
      ((properties.filter (!·.isOptional)).map Property.name)
    rwa [List.map_map] at hrequired
  | description | title | type => exact .string _ _

theorem within_of_primitive {kind : Primitive} (hd : document (.primitive kind) = .ok d) :
    d.Within (n + 1) := by
  obtain ⟨members, rfl, hr⟩ := rendered_of_document hd
  refine .object fun m hm => ?_
  cases hr.nodeMember hm with
  | description | title | type => exact .string _ _

theorem within_of_leaf (hd : document (.leaf name description) = .ok d) : d.Within (n + 1) := by
  obtain ⟨members, rfl, hr⟩ := rendered_of_document hd
  refine .object fun m hm => ?_
  cases hr.nodeMember hm with
  | description | title | type => exact .string _ _

theorem within_document (name : String) (members : Members) :
    ∀ n t d, Json.Within n (.object members) → build name (.object members) = .ok t →
      document t = .ok d → d.Within n := by
  induction name, members using reach_induction with
  | enumeration name members variants hv =>
    rintro _ t d (_ | _ | _ | _ | _ | @⟨n, _, hsub⟩) ht hd
    rw [build_enumeration hv] at ht
    obtain rfl := Except.ok.inj ht
    obtain ⟨key, items, hmem⟩ := mem_of_variants? hv
    obtain ⟨n, rfl⟩ : ∃ k, n = k + 1 := by
      have harray := hsub _ hmem
      cases harray with
      | @array k _ _ => exact ⟨k, rfl⟩
    exact within_of_enumeration hd
  | items name members element hv hi ih =>
    rintro _ t d (_ | _ | _ | _ | _ | @⟨n, _, hsub⟩) ht hd
    rw [build_items hv hi] at ht
    obtain ⟨element, helement, rfl⟩ := map_eq_ok ht
    exact within_of_array hd fun items hitems =>
      ih n element items (hsub _ (mem_of_lookup_object hi)) helement hitems
  | properties name members entries hv hi hp ih =>
    rintro _ t d (_ | _ | _ | _ | _ | @⟨n, _, hsub⟩) ht hd
    rw [build_properties hv hi hp] at ht
    obtain ⟨properties, hproperties, rfl⟩ := map_eq_ok ht
    have hentries := hsub _ (mem_of_lookup_object hp)
    cases hentries with
    | @object n _ hentries =>
      refine within_of_object hd fun p hmem node hnode => ?_
      obtain ⟨sub, hentry, hschema, -⟩ := mem_of_buildEach hproperties hmem
      exact ih p.name sub hentry n p.schema node (hentries _ hentry) hschema hnode
  | other name members hv hi hp =>
    rintro _ t d (_ | _ | _ | _ | _ | @⟨n, _, hsub⟩) ht hd
    rw [build_other hv hi hp] at ht
    obtain rfl := Except.ok.inj ht
    cases hkind : primitive? members with
    | some kind =>
      rw [hkind] at hd
      exact within_of_primitive hd
    | none =>
      rw [hkind] at hd
      exact within_of_leaf hd

/-! Renaming -/

theorem renamedEach_eq (properties : List (Property Tree)) :
    renamedEach properties = properties.map fun p => { p with schema := p.schema.renamed p.name } := by
  induction properties with
  | nil => rw [renamedEach, List.map_nil]
  | cons p rest ih => rw [renamedEach, ih, List.map_cons]

/-- Names that were given once are given again. -/
theorem renamed_renamed (hb : Built t) (name : String) :
    (t.renamed name).renamed name = t.renamed name := by
  induction hb generalizing name with
  | object _ _ _ ih =>
    simp only [Tree.renamed, renamedEach_eq, List.map_map]
    congr 1
    refine List.map_congr_left fun p hp => ?_
    simp [ih p hp]
  | array _ _ _ ih => rw [Tree.renamed, Tree.renamed, ih]
  | _ => simp only [Tree.renamed]

theorem propertyDocuments_renamed
    (h : ∀ p ∈ properties, ∀ node, document p.schema = .ok node →
      ∃ node', document (p.schema.renamed p.name) = .ok node')
    (hdocuments : propertyDocuments properties = .ok documents) :
    ∃ documents', propertyDocuments (renamedEach properties) = .ok documents' := by
  induction properties generalizing documents with
  | nil => exact ⟨[], by rw [renamedEach, propertyDocuments]⟩
  | cons p rest ih =>
    obtain ⟨node, others, hnode, hothers, rfl⟩ := propertyDocuments_cons_eq_ok hdocuments
    obtain ⟨node', hnode'⟩ := h p (by simp) node hnode
    obtain ⟨others', hothers'⟩ := ih (fun q hq => h q (List.mem_cons_of_mem _ hq)) hothers
    refine ⟨(p.name, describe p.description node') :: others', ?_⟩
    rw [renamedEach, propertyDocuments_cons, hnode', hothers']
    rfl

/-- Names do not decide whether a tree has a document. -/
theorem document_renamed (hb : Built t) (name : String) (hd : document t = .ok d) :
    ∃ d', document (t.renamed name) = .ok d' := by
  induction hb generalizing name d with
  | object _ _ _ ih =>
    rw [document] at hd
    obtain ⟨documents, hdocuments, rfl⟩ := map_eq_ok hd
    obtain ⟨documents', hdocuments'⟩ :=
      propertyDocuments_renamed (fun p hp node hnode => ih p hp p.name hnode) hdocuments
    rw [Tree.renamed, document, hdocuments']
    exact ⟨_, rfl⟩
  | array least greatest _ ih =>
    rw [document] at hd
    obtain ⟨items, hitems, rfl⟩ := map_eq_ok hd
    obtain ⟨items', hitems'⟩ := ih name hitems
    rw [Tree.renamed, document, hitems']
    exact ⟨_, rfl⟩
  | enumeration oldName description variants =>
    cases variants with
    | nil => cases hd
    | cons variant variants => exact ⟨_, document_enumeration ..⟩
  | primitive kind => exact ⟨_, by rw [Tree.renamed, document]⟩
  | leaf oldName description => exact ⟨_, by rw [Tree.renamed, document]⟩

/-! Compiling what was compiled -/

variable {text : List UInt8} {c : Compiled}

/-- What is compiled holds a tree that is built, and its document, which nests no deeper than a
text may. -/
theorem compiled_of_ofText (h : Compiled.ofText text = .ok c) :
    Built c.root ∧ document c.root = .ok c.document ∧ c.document.Within Json.Read.maxDepth := by
  rw [Compiled.ofText] at h
  cases hparse : Json.parse text with
  | error e => simp [hparse] at h
  | ok v =>
    obtain ⟨hsorted, hwithin⟩ := Json.sorted_within_of_parse hparse
    rw [hparse] at h
    obtain ⟨hbuild, hd⟩ := ofJson_eq_ok h
    refine ⟨built_of_buildRoot hsorted hbuild, hd, ?_⟩
    obtain ⟨members, rfl, hmembers⟩ := object_of_buildRoot hbuild
    exact within_document _ members _ _ _ hwithin hmembers hd

/-- The text of what was compiled is compiled to the same tree under new names. -/
theorem ofText_text (h : Compiled.ofText text = .ok c) (pretty : Bool) :
    ∃ again, Compiled.ofText (Text.bytes (c.text pretty)) = .ok again ∧
      again.root = c.root.renamed defaultRootName := by
  obtain ⟨hb, hd, hwithin⟩ := compiled_of_ofText h
  obtain ⟨hsorted, hexact⟩ := readsBack_document hb hd
  have hparse : Json.parse (Text.bytes (c.text pretty)) = .ok c.document :=
    Json.parse_write hwithin hsorted hexact
  have hrecompiles : Recompiles defaultRootName c.root.description? c.document c.root :=
    recompiles_document hb hd (agrees_own _)
  obtain ⟨members, hmembers, -, hbuild⟩ := hrecompiles
  rw [describe_own hd] at hmembers
  have hroot : buildRoot c.document = .ok (c.root.renamed defaultRootName) := by
    rw [buildRoot, hmembers, hbuild]
  obtain ⟨d, hd'⟩ := document_renamed hb defaultRootName hd
  refine ⟨⟨c.root.renamed defaultRootName, d⟩, ?_, rfl⟩
  rw [Compiled.ofText, hparse]
  simp only [Compiled.ofJson, hroot, ofTree_of_built (built_of_buildRoot hsorted hroot), hd']
  rfl

/-- The text of what was compiled is compiled again, to the tree with every node named by the
nearest key around it, and from then on to the very same. -/
theorem text_recompiles (h : Compiled.ofText text = .ok c) (pretty : Bool) :
    ∃ again, Compiled.ofText (Text.bytes (c.text pretty)) = .ok again ∧
      again.root = c.root.renamed defaultRootName ∧
      ∀ pretty, Compiled.ofText (Text.bytes (again.text pretty)) = .ok again := by
  obtain ⟨again, hagain, hroot⟩ := ofText_text h pretty
  refine ⟨again, hagain, hroot, fun pretty => ?_⟩
  obtain ⟨last, hlast, hlastRoot⟩ := ofText_text hagain pretty
  obtain ⟨hb, -, -⟩ := compiled_of_ofText h
  obtain ⟨-, hd, -⟩ := compiled_of_ofText hagain
  obtain ⟨-, hlastd, -⟩ := compiled_of_ofText hlast
  have hsame : last.root = again.root := by rw [hlastRoot, hroot, renamed_renamed hb]
  rw [hsame, hd] at hlastd
  have hdocument : last.document = again.document := (Except.ok.inj hlastd).symm
  obtain ⟨root, document⟩ := last
  obtain rfl := hsame
  obtain rfl := hdocument
  exact hlast

theorem text_recompiles_nameless_root :
    let v := Json.object [("items", .object [("name", .string "A")])]
    let c : Compiled := ⟨.array (.leaf "A" none) none none,
      .object [("items", .object [("title", .string "A")]), ("type", .string "array")]⟩
    Compiled.ofText (Text.bytes (v.write false)) = .ok c ∧
      ∃ again, Compiled.ofText (Text.bytes (c.text true)) = .ok again ∧
        again.root = .array (.leaf "Root" none) none none ∧
        ∀ pretty, Compiled.ofText (Text.bytes (again.text pretty)) = .ok again := by
  intro v c
  have hreadsBack : ReadsBack v := by
    refine .object (List.pairwise_singleton _ _) fun m hm => ?_
    obtain rfl := List.mem_singleton.mp hm
    refine .object (List.pairwise_singleton _ _) fun m hm => ?_
    obtain rfl := List.mem_singleton.mp hm
    exact .string "A"
  have hwithin : v.Within Json.Read.maxDepth := by
    refine .object fun m hm => ?_
    obtain rfl := List.mem_singleton.mp hm
    refine .object fun m hm => ?_
    obtain rfl := List.mem_singleton.mp hm
    exact .string _ "A"
  have hparse : Json.parse (Text.bytes (v.write false)) = .ok v :=
    Json.parse_write hwithin hreadsBack.1 hreadsBack.2
  have hcompiled : Compiled.ofText (Text.bytes (v.write false)) = .ok c := by
    rw [Compiled.ofText, hparse]
    rfl
  obtain ⟨again, hagain, hroot, hlast⟩ := text_recompiles hcompiled true
  exact ⟨hcompiled, again, hagain, hroot, hlast⟩

end Generation.Schema
