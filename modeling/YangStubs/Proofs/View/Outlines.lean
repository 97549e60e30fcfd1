import YangStubs.Proofs.Emit.Positions

/-! # Items that are left out

A second item of a kind and name is left out of a view.  If it has the outline of the first, this is not worth a
warning.  Main statement: where names are plain, an outline tells all about an item but for marks of fields, values
of enums and names of alternatives, so these are what can be lost without a warning.
-/

namespace YangStubs.View

open YangStubs.Emit (fieldList_named rpcOf_fields)
open YangStubs.Model
open YangStubs.Naming (Scheme)
open YangStubs.Schema (Library run_bind)

/-! ## Lines -/

/-- What stands before the first cut and what stands behind it are determined. -/
theorem cut_unique {α : Type} (IsCut : α → Prop) {before before' : List α} {c c' : α} {after after' : List α}
    (free : ∀ a ∈ before, ¬ IsCut a) (free' : ∀ a ∈ before', ¬ IsCut a) (isCut : IsCut c) (isCut' : IsCut c')
    (same : before ++ c :: after = before' ++ c' :: after') : before = before' ∧ c = c' ∧ after = after' := by
  induction before generalizing before' with
  | nil =>
    cases before' with
    | nil =>
      obtain ⟨rfl, rfl⟩ := List.cons.inj same
      exact ⟨rfl, rfl, rfl⟩
    | cons b rest' =>
      obtain ⟨rfl, -⟩ := List.cons.inj same
      exact absurd isCut (free' _ List.mem_cons_self)
  | cons a rest ih =>
    cases before' with
    | nil =>
      obtain ⟨rfl, -⟩ := List.cons.inj same
      exact absurd isCut' (free _ List.mem_cons_self)
    | cons b rest' =>
      obtain ⟨rfl, others⟩ := List.cons.inj same
      obtain ⟨rfl, rest⟩ := ih (List.forall_mem_cons.1 free).2 (List.forall_mem_cons.1 free').2 others
      exact ⟨rfl, rest⟩

/-- Lines as a text. -/
def unlines (lines : List String) : String :=
  String.join (lines.map (· ++ "\n"))

theorem toList_unlines_cons (line : String) (rest : List String) :
    (unlines (line :: rest)).toList = line.toList ++ '\n' :: (unlines rest).toList := by
  simp [unlines]

theorem unlines_cons (line : String) (rest : List String) : unlines (line :: rest) = line ++ "\n" ++ unlines rest := by
  rw [unlines, List.map_cons, String.join_cons]
  rfl

theorem unlines_append (a b : List String) : unlines (a ++ b) = unlines a ++ unlines b := by
  simp [unlines]

theorem unlines_inj {lines lines' : List String} (free : ∀ line ∈ lines, '\n' ∉ line.toList)
    (free' : ∀ line ∈ lines', '\n' ∉ line.toList) (same : unlines lines = unlines lines') : lines = lines' := by
  induction lines generalizing lines' with
  | nil =>
    cases lines' with
    | nil => rfl
    | cons line' rest' =>
      rw [← String.toList_inj, toList_unlines_cons] at same
      simp [unlines] at same
  | cons line rest ih =>
    cases lines' with
    | nil =>
      rw [← String.toList_inj, toList_unlines_cons] at same
      simp [unlines] at same
    | cons line' rest' =>
      rw [List.forall_mem_cons] at free free'
      rw [← String.toList_inj, toList_unlines_cons, toList_unlines_cons] at same
      obtain ⟨first, -, others⟩ := cut_unique (· = '\n') (fun c member isCut => free.1 (isCut ▸ member))
        (fun c member isCut => free'.1 (isCut ▸ member)) rfl rfl same
      rw [String.toList_inj.1 first, ih free.2 free'.2 (String.toList_inj.1 others)]

/-! ## Outlines -/

/-- The line of a field. -/
def fieldText (v : FieldItem) : String :=
  v.schemaName ++ ": " ++ v.typeName ++ if v.isList then "[]" else ""

namespace Entry

/-- The lines of an outline. -/
def lines : Entry → List String
  | ofClass c => c.bases.map ("uses " ++ ·) ++ c.fields.map fieldText
  | ofEnum e => e.variants.map (·.schemaName)
  | ofUnion u => u.members.map (·.typeName)
  | ofAlias a => [a.typeName]
  | ofRpc rpc => "input" :: rpc.input.map fieldText ++ "output" :: rpc.output.map fieldText

/-- The outline of an item, whichever kind it is of. -/
def outline : Entry → String
  | ofClass c => Item.outline c
  | ofEnum e => Item.outline e
  | ofUnion u => Item.outline u
  | ofAlias a => Item.outline a
  | ofRpc rpc => Item.outline rpc

theorem outline_eq (e : Entry) : e.outline = unlines e.lines := by
  have texts : ∀ {α : Type} (text : α → String) (l : List α),
      String.join (l.map fun a => text a ++ "\n") = unlines (l.map text) := by
    intro α text l
    rw [unlines, List.map_map]
    rfl
  cases e with
  | ofClass c =>
    show String.join _ ++ fieldLines c.fields = _
    rw [lines, unlines_append, ← texts, ← texts]
    rfl
  | ofEnum e => exact texts _ e.variants
  | ofUnion u => exact texts _ u.members
  | ofAlias a => exact texts _ [a]
  | ofRpc rpc =>
    have heads : "input" ++ "\n" = "input\n" ∧ "output" ++ "\n" = "output\n" := by decide
    show "input\n" ++ fieldLines rpc.input ++ "output\n" ++ fieldLines rpc.output = _
    rw [lines, List.cons_append, unlines_cons, unlines_append, unlines_cons, ← texts, ← texts, heads.1, heads.2,
      String.append_assoc, String.append_assoc]
    rfl

end Entry

/-! ## Plain names -/

/-- No part of the text of a field can be taken for another part of it. -/
structure FieldItem.IsPlain (v : FieldItem) : Prop where
  name : '\n' ∉ v.schemaName.toList ∧ ':' ∉ v.schemaName.toList
  type : '\n' ∉ v.typeName.toList ∧ ¬ "[]".toList <:+ v.typeName.toList

/-- What the text of a field tells. -/
def FieldItem.written (v : FieldItem) : String × String × Bool :=
  (v.schemaName, v.typeName, v.isList)

theorem toList_fieldText (v : FieldItem) : (fieldText v).toList =
    v.schemaName.toList ++ ':' :: (' ' :: (v.typeName.toList ++ if v.isList then "[]".toList else [])) := by
  cases isList : v.isList <;> simp [fieldText, isList]

theorem FieldItem.IsPlain.line {v : FieldItem} (plain : v.IsPlain) : '\n' ∉ (fieldText v).toList := by
  have name := plain.name.1
  have type := plain.type.1
  rw [toList_fieldText]
  cases v.isList <;> simp [name, type]

theorem written_of_fieldText {v w : FieldItem} (plain : v.IsPlain) (plain' : w.IsPlain)
    (same : fieldText v = fieldText w) : v.written = w.written := by
  rw [← String.toList_inj, toList_fieldText, toList_fieldText] at same
  obtain ⟨name, -, rest⟩ := cut_unique (· = ':') (fun c member isCut => plain.name.2 (isCut ▸ member))
    (fun c member isCut => plain'.name.2 (isCut ▸ member)) rfl rfl same
  have types := (List.cons.inj rest).2
  -- A type that ends like the mark of a list could be told from a list of the shorter type only by its kind.
  have isList : v.isList = w.isList := by
    cases ofV : v.isList <;> cases ofW : w.isList
    · rfl
    · simp only [ofV, ofW, if_true, Bool.false_eq_true, if_false, List.append_nil] at types
      exact absurd (types ▸ List.suffix_append _ _) plain.type.2
    · simp only [ofV, ofW, if_true, Bool.false_eq_true, if_false, List.append_nil] at types
      exact absurd (types ▸ List.suffix_append _ _) plain'.type.2
    · rfl
  rw [isList, List.append_cancel_right_eq] at types
  rw [FieldItem.written, FieldItem.written, String.toList_inj.1 name, String.toList_inj.1 types, isList]

/-! ## Agreement -/

theorem map_eq_of_map_eq {α β γ : Type} {f : α → β} {g : α → γ} {a b : List α}
    (each : ∀ v ∈ a, ∀ w ∈ b, f v = f w → g v = g w) (same : a.map f = b.map f) : a.map g = b.map g := by
  induction a generalizing b with
  | nil =>
    rw [List.map_nil, eq_comm, List.map_eq_nil_iff] at same
    rw [same]
  | cons v rest ih =>
    obtain ⟨w, others, rfl, first, more⟩ := List.map_eq_cons_iff.1 same.symm
    rw [List.map_cons, List.map_cons, each v List.mem_cons_self w List.mem_cons_self first.symm,
      ih (fun v isV w isW => each v (List.mem_cons_of_mem _ isV) w (List.mem_cons_of_mem _ isW)) more.symm]

/-- Lists of parts that are written alike agree if what is not written does. -/
theorem map_shape_iff {α β γ δ : Type} {shape : α → β} {written : α → γ} {marks : α → δ} {a b : List α}
    (of : ∀ v ∈ a, ∀ w ∈ b, shape v = shape w → marks v = marks w)
    (determined : ∀ v ∈ a, ∀ w ∈ b, written v = written w → marks v = marks w → shape v = shape w)
    (same : a.map written = b.map written) : a.map shape = b.map shape ↔ a.map marks = b.map marks := by
  refine ⟨map_eq_of_map_eq of, fun sameMarks => ?_⟩
  have both : a.map (fun v => (written v, marks v)) = b.map fun v => (written v, marks v) := by
    rw [← List.zip_map', ← List.zip_map', same, sameMarks]
  refine map_eq_of_map_eq (fun v isV w isW pair => ?_) both
  exact determined v isV w isW (congrArg Prod.fst pair) (congrArg Prod.snd pair)

/-- What a generated field depends on. -/
def FieldItem.shape (v : FieldItem) : String × String × Bool × Bool × Bool :=
  (v.name, v.typeName, v.isList, v.isClass, v.mandatory)

/-- What the text of a field does not tell. -/
def FieldItem.marks (v : FieldItem) : Bool × Bool :=
  (v.isClass, v.mandatory)

namespace Entry

/-- Two items have the same fields, variants, alternatives or type. -/
def Agrees : Entry → Entry → Prop
  | ofClass c, ofClass c' => c.fields.map FieldItem.shape = c'.fields.map FieldItem.shape ∧ c.bases = c'.bases
  | ofEnum e, ofEnum e' => e.variants.map (fun v => (v.name, v.value)) = e'.variants.map fun v => (v.name, v.value)
  | ofUnion u, ofUnion u' => u.members = u'.members
  | ofAlias a, ofAlias a' => a.typeName = a'.typeName
  | ofRpc rpc, ofRpc rpc' =>
    rpc.input.map FieldItem.shape = rpc'.input.map FieldItem.shape ∧
      rpc.output.map FieldItem.shape = rpc'.output.map FieldItem.shape
  | _, _ => False

/-- Two items are the same in what an outline does not tell. -/
def SameUnwritten : Entry → Entry → Prop
  | ofClass c, ofClass c' => c.fields.map FieldItem.marks = c'.fields.map FieldItem.marks
  | ofEnum e, ofEnum e' => e.variants.map (·.value) = e'.variants.map (·.value)
  | ofUnion u, ofUnion u' => u.members.map (·.name) = u'.members.map (·.name)
  | ofAlias _, ofAlias _ => True
  | ofRpc rpc, ofRpc rpc' =>
    rpc.input.map FieldItem.marks = rpc'.input.map FieldItem.marks ∧
      rpc.output.map FieldItem.marks = rpc'.output.map FieldItem.marks
  | _, _ => False

/-- The lines of an outline can be told apart, and so can their parts. -/
def IsPlain : Entry → Prop
  | ofClass c => (∀ base ∈ c.bases, '\n' ∉ base.toList ∧ ':' ∉ base.toList) ∧ ∀ v ∈ c.fields, v.IsPlain
  | ofEnum e => ∀ v ∈ e.variants, '\n' ∉ v.schemaName.toList
  | ofUnion u => ∀ m ∈ u.members, '\n' ∉ m.typeName.toList
  | ofAlias a => '\n' ∉ a.typeName.toList
  | ofRpc rpc => ∀ v ∈ rpc.input ++ rpc.output, v.IsPlain

theorem IsPlain.lines_free {e : Entry} (plain : e.IsPlain) : ∀ line ∈ e.lines, '\n' ∉ line.toList := by
  cases e with
  | ofClass c =>
    refine List.forall_mem_append.2 ⟨List.forall_mem_map.2 fun base isBase => ?_,
      List.forall_mem_map.2 fun v isField => (plain.2 v isField).line⟩
    simp [(plain.1 base isBase).1]
  | ofEnum e => exact List.forall_mem_map.2 plain
  | ofUnion u => exact List.forall_mem_map.2 plain
  | ofAlias a => exact List.forall_mem_singleton.2 plain
  | ofRpc rpc =>
    obtain ⟨ofInput, ofOutput⟩ := List.forall_mem_append.1 plain
    refine List.forall_mem_append.2 ⟨List.forall_mem_cons.2 ⟨by decide, ?_⟩, List.forall_mem_cons.2 ⟨by decide, ?_⟩⟩
    · exact List.forall_mem_map.2 fun v isField => (ofInput v isField).line
    · exact List.forall_mem_map.2 fun v isField => (ofOutput v isField).line

theorem map_written_of_lines {a b : List FieldItem} (plain : ∀ v ∈ a, v.IsPlain) (plain' : ∀ v ∈ b, v.IsPlain)
    (same : a.map fieldText = b.map fieldText) : a.map FieldItem.written = b.map FieldItem.written :=
  map_eq_of_map_eq (fun v isV w isW => written_of_fieldText (plain v isV) (plain' w isW)) same

theorem class_of_lines {c c' : ClassItem} (plain : (ofClass c).IsPlain) (plain' : (ofClass c').IsPlain)
    (same : (ofClass c).lines = (ofClass c').lines) :
    c.bases = c'.bases ∧ c.fields.map FieldItem.written = c'.fields.map FieldItem.written := by
  have cut : ∀ {c : ClassItem}, (ofClass c).IsPlain →
      (ofClass c).lines.filter (':' ∈ ·.toList) = c.fields.map fieldText ∧
        (ofClass c).lines.filter (':' ∉ ·.toList) = c.bases.map ("uses " ++ ·) := by
    -- A line is that of a field exactly if there is a colon in it.
    intro c plain
    have ofBases : ∀ line ∈ c.bases.map ("uses " ++ ·), ':' ∉ line.toList :=
      List.forall_mem_map.2 fun base isBase => by simp [(plain.1 base isBase).2]
    have ofFields : ∀ line ∈ c.fields.map fieldText, ':' ∈ line.toList :=
      List.forall_mem_map.2 fun v _ => by simp [toList_fieldText]
    rw [lines, List.filter_append, List.filter_append]
    constructor
    · rw [List.filter_eq_nil_iff.2 (by simpa using ofBases), List.filter_eq_self.2 (by simpa using ofFields),
        List.nil_append]
    · rw [List.filter_eq_self.2 (by simpa using ofBases), List.filter_eq_nil_iff.2 (by simpa using ofFields),
        List.append_nil]
  obtain ⟨fields, bases⟩ := cut plain
  obtain ⟨fields', bases'⟩ := cut plain'
  rw [same] at fields bases
  have injective : Function.Injective ("uses " ++ · : String → String) :=
    fun a b => (String.append_right_inj "uses ").1
  exact ⟨List.map_injective_iff.2 injective (bases.symm.trans bases'),
    map_written_of_lines plain.2 plain'.2 (fields.symm.trans fields')⟩

theorem rpc_of_lines {rpc rpc' : RpcItem} (plain : (ofRpc rpc).IsPlain) (plain' : (ofRpc rpc').IsPlain)
    (same : (ofRpc rpc).lines = (ofRpc rpc').lines) :
    rpc.input.map FieldItem.written = rpc'.input.map FieldItem.written ∧
      rpc.output.map FieldItem.written = rpc'.output.map FieldItem.written := by
  obtain ⟨ofInput, ofOutput⟩ := List.forall_mem_append.1 plain
  obtain ⟨ofInput', ofOutput'⟩ := List.forall_mem_append.1 plain'
  have noField : ∀ members : List FieldItem, ∀ line ∈ members.map fieldText, line ≠ "output" := by
    intro members
    refine List.forall_mem_map.2 fun v _ isHead => ?_
    have colon : ':' ∈ (fieldText v).toList := by simp [toList_fieldText]
    rw [isHead] at colon
    exact absurd colon (by decide)
  obtain ⟨inputs, -, outputs⟩ := cut_unique (· = "output") (noField rpc.input) (noField rpc'.input) rfl rfl
    (List.cons.inj same).2
  exact ⟨map_written_of_lines ofInput ofInput' inputs, map_written_of_lines ofOutput ofOutput' outputs⟩

theorem fields_shape_iff {naming : Scheme} {a b : List FieldItem}
    (named : ∀ v ∈ a, v.name = naming.variableName v.schemaName)
    (named' : ∀ v ∈ b, v.name = naming.variableName v.schemaName)
    (same : a.map FieldItem.written = b.map FieldItem.written) :
    a.map FieldItem.shape = b.map FieldItem.shape ↔ a.map FieldItem.marks = b.map FieldItem.marks := by
  refine map_shape_iff (fun v _ w _ => ?_) (fun v isV w isW => ?_) same
  · simp +contextual [FieldItem.shape, FieldItem.marks]
  · simp +contextual [FieldItem.shape, FieldItem.marks, FieldItem.written, named v isV, named' w isW]

/-- The names of fields and variants are those that a scheme gives them. -/
def Named (naming : Scheme) : Entry → Prop
  | ofClass c => ∀ v ∈ c.fields, v.name = naming.variableName v.schemaName
  | ofEnum e => ∀ v ∈ e.variants, v.name = naming.variantName v.schemaName
  | ofRpc rpc => ∀ v ∈ rpc.input ++ rpc.output, v.name = naming.variableName v.schemaName
  | _ => True

theorem named_of_item {lens : Lens} {node : Node} {e : Entry} (isItem : lens.entry? node = some e) :
    e.Named lens.naming := by
  rcases entry?_cases lens isItem with rfl | rfl | ⟨enums, rfl⟩ | ⟨members, -, rfl⟩ | rfl
  · exact fieldList_named lens node
  · intro v isField
    obtain ⟨message, ofMessage⟩ := rpcOf_fields lens node v isField
    exact fieldList_named lens message v ofMessage
  · exact List.forall_mem_map.2 fun value _ => rfl
  · trivial
  · trivial

/-- Items with the same outline agree exactly if they are the same in what it does not tell. -/
theorem agrees_iff {naming : Scheme} {e e' : Entry} (named : e.Named naming) (named' : e'.Named naming)
    (kind : e.kind = e'.kind) (plain : e.IsPlain) (plain' : e'.IsPlain) (same : e.outline = e'.outline) :
    e.Agrees e' ↔ e.SameUnwritten e' := by
  rw [outline_eq, outline_eq] at same
  have sameLines := unlines_inj plain.lines_free plain'.lines_free same
  -- Items of different kinds are not compared; for each kind the lines give back what they were written from.
  cases e <;> cases e' <;> try cases kind
  case ofClass.ofClass c c' =>
    obtain ⟨bases, fields⟩ := class_of_lines plain plain' sameLines
    exact (and_iff_left bases).trans (fields_shape_iff named named' fields)
  case ofEnum.ofEnum e e' =>
    refine map_shape_iff (fun v _ w _ => congrArg Prod.snd) (fun v isV w isW name value => ?_) sameLines
    rw [named v isV, named' w isW, name, value]
  case ofUnion.ofUnion u u' =>
    have members : u.members.map id = u'.members.map id ↔ u.members.map (·.name) = u'.members.map (·.name) := by
      refine map_shape_iff (fun v _ w _ => congrArg Member.name) (fun v _ w _ type name => ?_) sameLines
      show Member.mk v.name v.typeName = Member.mk w.name w.typeName
      rw [type, name]
    rwa [List.map_id, List.map_id] at members
  case ofAlias.ofAlias a a' => exact iff_of_true (List.singleton_inj.1 sameLines) trivial
  case ofRpc.ofRpc rpc rpc' =>
    obtain ⟨ofInput, ofOutput⟩ := List.forall_mem_append.1 named
    obtain ⟨ofInput', ofOutput'⟩ := List.forall_mem_append.1 named'
    obtain ⟨inputs, outputs⟩ := rpc_of_lines plain plain' sameLines
    exact and_congr (fields_shape_iff ofInput ofInput' inputs) (fields_shape_iff ofOutput ofOutput' outputs)

theorem aliases_agree {e e' : Entry} (kind : e.kind = e'.kind) (isAlias : e.kind = .aliases)
    (same : e.outline = e'.outline) : e.Agrees e' := by
  cases e <;> cases isAlias
  cases e' <;> cases kind
  exact (String.append_left_inj "\n").1 same

end Entry

/-! ## Leaving out without a warning -/

theorem takeName_log (kind : ItemKind) (name : String) (d : Draft) :
    let r := (takeName kind name).run d
    r.1 = true ∧ r.2.log = d.log ∨ r.1 = false ∧ ∃ message, r.2.log = d.log ++ [⟨.warn, .views, message⟩] := by
  have current : ((get : Drafting Draft).run d) = (d, d) := rfl
  simp only [takeName, run_bind, current]
  cases d.taken.lookup name with
  | none => exact .inl ⟨rfl, rfl⟩
  | some first =>
    by_cases own : first = kind
    · simp only [own, beq_self_eq_true, if_true]
      exact .inl ⟨rfl, rfl⟩
    · simp only [beq_iff_eq, own, if_false]
      exact .inr ⟨rfl, _, rfl⟩

/-- An item that does not get its names is reported. -/
theorem takeNames_log (kind : ItemKind) (names : List String) (d : Draft) :
    let r := (takeNames kind names).run d
    r.1 = true ∧ r.2.log = d.log ∨
      r.1 = false ∧ ∃ events, r.2.log = d.log ++ events ∧ ∃ event ∈ events, event.level = .warn := by
  induction names generalizing d with
  | nil => exact .inl ⟨rfl, rfl⟩
  | cons name rest ih =>
    rw [takeNames_cons_run]
    simp only
    rcases takeName_log kind name d with ⟨own, log⟩ | ⟨foreign, message, log⟩ <;>
      rcases ih ((takeName kind name).run d).2 with ⟨owns, logs⟩ | ⟨foreigns, events, logs, event, isEvent, isWarning⟩
    · exact .inl ⟨by rw [own, owns]; rfl, logs.trans log⟩
    · exact .inr ⟨by rw [own, foreigns]; rfl, events, by rw [logs, log], event, isEvent, isWarning⟩
    · exact .inr ⟨by rw [foreign]; rfl, _, by rw [logs, log], _, List.mem_singleton_self _, rfl⟩
    · exact .inr ⟨by rw [foreign]; rfl, _, by rw [logs, log, List.append_assoc], _, List.mem_append_left _
        (List.mem_singleton_self _), rfl⟩

/-- An item whose name is there already is not admitted, with a warning if the first of the name looks different. -/
theorem admitItem_present {α : Type} [Item α] {wrap : α → Entry} (named : ∀ a, (wrap a).name = Item.name a)
    (outlined : ∀ a, (wrap a).outline = Item.outline a) {items : List α} {item : α}
    (present : (wrap item).name ∈ (items.map wrap).map Entry.name) :
    ∃ first ∈ items.map wrap, first.name = (wrap item).name ∧ ∃ event : Event,
      admitItem items item = (items, [event]) ∧ (event.level = .warn ↔ first.outline ≠ (wrap item).outline) := by
  simp only [List.mem_map, exists_exists_and_eq_and, named, outlined] at present ⊢
  unfold admitItem
  cases found : items.find? fun first => Item.name first == Item.name item with
  | none =>
    obtain ⟨first, isFirst, name⟩ := present
    exact absurd name (by simpa using List.find?_eq_none.1 found first isFirst)
  | some first =>
    refine ⟨first, List.mem_of_find?_eq_some found, by simpa using List.find?_some found, ?_⟩
    simp only
    split
    · rename_i same
      exact ⟨_, rfl, by simpa using same⟩
    · rename_i differ
      exact ⟨_, rfl, by simpa using differ⟩

namespace Entry

theorem accept_absent {e : Entry} {d : Draft} (absent : e.name ∉ (d.view.entries e.kind).map name) :
    (e.accept d).view ≠ d.view := by
  intro same
  have entries := accept_entries e d e.kind
  rw [same, if_pos ⟨rfl, absent⟩] at entries
  simpa using congrArg List.length entries

theorem accept_present {e : Entry} {d : Draft} (present : e.name ∈ (d.view.entries e.kind).map name) :
    ∃ first ∈ d.view.entries e.kind, first.name = e.name ∧ ∃ event : Event,
      e.accept d = { d with log := d.log ++ [event] } ∧ (event.level = .warn ↔ first.outline ≠ e.outline) := by
  -- Items of all kinds are admitted alike, each to the list of its kind.
  cases e
  all_goals
    obtain ⟨first, isFirst, name, event, kept, level⟩ := admitItem_present (fun _ => rfl) (fun _ => rfl) present
    exact ⟨first, isFirst, name, event, by rw [accept, kept], level⟩

end Entry

/-- A step leaves a view as it is, and there is no warning. -/
def Draft.IsSilent (d after : Draft) : Prop :=
  after.view = d.view ∧ ∃ events, after.log = d.log ++ events ∧ ∀ event ∈ events, event.level ≠ .warn

/-- An item is left out without a warning exactly if one of its kind, its name and its outline is there. -/
theorem Filled.silent_iff {items : List Entry} {d : Draft} (filled : Filled items d) (e : Entry) :
    d.IsSilent (e.put.run d).2 ↔ ∃ first ∈ d.view.entries e.kind, first.name = e.name ∧ first.outline = e.outline := by
  obtain ⟨answer, view, taken⟩ := takeNames_run e.kind e.names d
  rw [e.put_run]
  simp only
  rcases takeNames_log e.kind e.names d with ⟨own, log⟩ | ⟨foreign, events, log, event, isEvent, isWarning⟩
  · simp only [own, if_true]
    by_cases present : e.name ∈ (((takeNames e.kind e.names).run d).2.view.entries e.kind).map Entry.name
    · obtain ⟨first, isFirst, name, event, kept, level⟩ := Entry.accept_present present
      rw [view] at isFirst
      rw [kept]
      constructor
      · rintro ⟨-, events, sameLog, noWarning⟩
        obtain rfl := List.append_cancel_left ((congrArg (· ++ [event]) log).symm.trans sameLog)
        exact ⟨first, isFirst, name, not_not.1 (mt level.2 (noWarning event (List.mem_singleton_self _)))⟩
      · rintro ⟨other, isOther, name', outline⟩
        obtain rfl := List.inj_on_of_nodup_map (filled.distinct e.kind) isOther isFirst (name'.trans name.symm)
        exact ⟨view, [event], congrArg (· ++ [event]) log,
          List.forall_mem_singleton.2 fun isWarning => level.1 isWarning outline⟩
    · have changed := Entry.accept_absent present
      rw [view] at changed present
      exact iff_of_false (fun silent => changed silent.1)
        fun ⟨first, isFirst, name, _⟩ => present (List.mem_map.2 ⟨first, isFirst, name⟩)
  · simp only [foreign, Bool.false_eq_true, if_false]
    constructor
    · rintro ⟨-, others, sameLog, noWarning⟩
      obtain rfl := List.append_cancel_left (log.symm.trans sameLog)
      exact absurd isWarning (noWarning event isEvent)
    · rintro ⟨first, isFirst, name, -⟩
      -- What is kept has its names, and these are the names of the item.
      obtain ⟨kind, -, -, -, -, holds⟩ := (filled.kept first e.kind).1 isFirst
      have names := Entry.names_eq_of_kind_name kind name
      rw [answer, decide_eq_false_iff_not] at foreign
      refine absurd (fun x takes => ?_) foreign
      rw [taken, filled.taken, holds x (names ▸ takes), kind, Option.some_or]

theorem draftOf_append_singleton (m : Module) (backend : Backend) (before : List Node) {node : Node} {e : Entry}
    (isItem : Lens.entry? (Lens.ofModule m backend) node = some e) :
    draftOf m backend (before ++ [node]) = (e.put.run (draftOf m backend before)).2 := by
  have more : draftOf m backend (before ++ [node]) =
      (([node].forM (putNode (Lens.ofModule m backend))).run (draftOf m backend before)).2 :=
    congrArg (fun step : Drafting Unit => (step.run ⟨blankView m, [], []⟩).2) List.forM_append
  rw [more, putNodes_run, Lens.entriesOf, List.filterMap_cons_some isItem]
  rfl

/-- The item of a node is left out without a warning exactly if the view has one of its kind, name and outline.  That
    one stays in the view.  If it is an alias, both agree; otherwise, where names are plain, they agree exactly if
    they are the same in what no outline tells. -/
theorem silent_agrees_iff (m : Module) (backend : Backend) {before after : List Node} {node : Node} {e : Entry}
    (split : shownNodes m = before ++ node :: after)
    (isItem : Lens.entry? (Lens.ofModule m backend) node = some e) :
    let d := draftOf m backend before
    (d.IsSilent (draftOf m backend (before ++ [node])) ↔
      ∃ first ∈ d.view.entries e.kind, first.name = e.name ∧ first.outline = e.outline) ∧
    ∀ first ∈ d.view.entries e.kind, first.name = e.name → first.outline = e.outline →
      first ∈ (ModuleItems.ofModule m backend).1.entries e.kind ∧
      (e.kind = .aliases → first.Agrees e) ∧
      (first.IsPlain → e.IsPlain → (first.Agrees e ↔ first.SameUnwritten e)) := by
  intro d
  have filled := draftOf_filled m backend before
  constructor
  · rw [draftOf_append_singleton m backend before isItem]
    exact filled.silent_iff e
  · intro first isFirst _ same
    obtain ⟨kind, prevails⟩ := (filled.kept first e.kind).1 isFirst
    obtain ⟨_, origin, _, _, isOrigin, -⟩ := prevails_entriesOf.1 prevails
    have grown := draftOf_prefix m backend before (node :: after) e.kind
    have stays := grown.subset isFirst
    rw [← split] at stays
    exact ⟨stays, fun isAlias => Entry.aliases_agree kind (kind.trans isAlias) same, fun plain plain' =>
      Entry.agrees_iff (Entry.named_of_item isOrigin) (Entry.named_of_item isItem) kind plain plain' same⟩

/-- A module with two containers of one name, in one of which the leaf is mandatory. -/
def mandatoryTwin : String :=
  "<module name='m' xmlns='urn:ietf:params:xml:ns:yang:yin:1'>" ++
  "<container name='a'><container name='item'><leaf name='x'><type name='int8'/><mandatory value='true'/></leaf>" ++
  "</container></container><container name='b'><container name='item'><leaf name='x'><type name='int8'/></leaf>" ++
  "</container></container></module>"

/-- The class `Item` of a mandatory leaf `x`, and that of an optional one. -/
def itemClass (mandatory : Bool) : Entry :=
  .ofClass ⟨"Item", "item", "container", none, [⟨"x", "x", "int8", false, false, mandatory, none, none⟩], [], [],
    false⟩

/-- The second class is left out without a warning, but its field is not that of the first. -/
theorem silent_agrees_iff_mandatoryTwin :
    ∃ schema m, ((Library.ofTexts [mandatoryTwin]).resolve [] ⟨[]⟩).result = .ok schema ∧ m ∈ schema.modules ∧
      (let model := (Module.build schema (.root 0) m.2).1
       ∃ before node after, shownNodes model = before ++ node :: after ∧
         Lens.entry? (Lens.ofModule model (.root 0)) node = some (itemClass false) ∧
         (draftOf model (.root 0) before).IsSilent (draftOf model (.root 0) (before ++ [node])) ∧
         itemClass true ∈ (ModuleItems.ofModule model (.root 0)).1.entries .classes ∧
         ¬ (itemClass true).Agrees (itemClass false)) := by
  have evaluated : (((Library.ofTexts [mandatoryTwin]).resolve [] ⟨[]⟩).result.toOption.map
      fun schema => schema.modules.map fun m =>
        let model := (Module.build schema (.root 0) m.2).1
        (((shownNodes model)[4]?.bind fun node => Lens.entry? (Lens.ofModule model (.root 0)) node),
          (draftOf model (.root 0) ((shownNodes model).take 4)).view.entries .classes |>.contains (itemClass true))) =
      some [(some (itemClass false), true)] := by
    decide +kernel
  obtain ⟨schema, m, resolved, isModule, both⟩ := exists_module evaluated
  obtain ⟨second, first⟩ := Prod.mk.inj both
  obtain ⟨node, listed, isItem⟩ := Option.bind_eq_some_iff.1 second
  obtain ⟨bound, isNode⟩ := List.getElem?_eq_some_iff.1 listed
  have split := (List.take_append_drop 4 (shownNodes (Module.build schema (.root 0) m.2).1)).symm
  rw [List.drop_eq_getElem_cons bound, isNode] at split
  have isFirst := List.contains_iff_mem.1 first
  have plain : ∀ mandatory, (itemClass mandatory).IsPlain := by
    intro mandatory
    exact ⟨List.forall_mem_nil _, List.forall_mem_singleton.2 ⟨by dsimp only; decide, by dsimp only; decide⟩⟩
  obtain ⟨silent, agrees⟩ := silent_agrees_iff (Module.build schema (.root 0) m.2).1 (.root 0) split isItem
  obtain ⟨stays, -, agrees_iff⟩ := agrees (itemClass true) isFirst rfl rfl
  refine ⟨schema, m, resolved, isModule, _, node, _, split, isItem, silent.2 ⟨_, isFirst, rfl, rfl⟩, stays, ?_⟩
  rw [agrees_iff (plain true) (plain false)]
  show ¬ [(false, true)] = [(false, false)]
  decide

end YangStubs.View
