import EntityMapper.Proofs.Grammar.Compilation
import EntityMapper.Proofs.Serial.Decoding
import EntityMapper.Serial.Query

/-!
# Saved intents

An intent that is saved as text is loaded as it was: every value, condition,
join, order and flag of it. Floating point numbers are left out, since their
text need not be read as the same number. Values are taken apart by one
induction, with lists inside lists; everything else is a choice or a structure
whose parts are decoded one by one.
-/

namespace EntityMapper

open Json (Document)
open Serial

/-! ## Values -/

namespace Value

/-- What holds of a list if it holds of its items, and of all other values,
holds of every value. -/
theorem induction_on {P : Value → Prop}
    (hlist : ∀ items, (∀ v ∈ items, P v) → P (.list items))
    (hleaf : ∀ v, (∀ items, v ≠ .list items) → P v) (v : Value) : P v :=
  @Value.rec P (fun items => ∀ v ∈ items, P v) (hleaf _ (by simp))
    (fun _ => hleaf _ (by simp)) (fun _ => hleaf _ (by simp))
    (fun _ => hleaf _ (by simp)) (fun _ => hleaf _ (by simp))
    (fun _ => hleaf _ (by simp)) (fun _ => hleaf _ (by simp))
    (fun _ => hleaf _ (by simp)) hlist (fun _ => hleaf _ (by simp)) (by simp)
    (fun _ _ hitem hrest => List.forall_mem_cons.mpr ⟨hitem, hrest⟩) v

mutual

/-- A value without floating point numbers: none of its own and none in its
documents. -/
def IsExact : Value → Prop
  | .float _ => False
  | .list items => AreExact items
  | .json d => d.WellFormed ∧ ∀ x, Document.float x ∉ d.parts
  | .null => True
  | .bool _ => True
  | .int _ => True
  | .text _ => True
  | .bytes _ => True
  | .timestamp _ => True
  | .uuid _ => True

def AreExact : List Value → Prop
  | [] => True
  | v :: rest => IsExact v ∧ AreExact rest

end

theorem areExact_iff (values : List Value) :
    AreExact values ↔ ∀ v ∈ values, v.IsExact := by
  induction values with
  | nil => simp [AreExact]
  | cons v values ih => simp [AreExact, ih]

theorem serials_eq (values : List Value) : serials values = values.map serial := by
  induction values with
  | nil => rfl
  | cons v rest ih => rw [serials, ih, List.map_cons]

/-- A value of a kind other than lists is decoded if its content is. -/
theorem decodes_tagged {name : String} {content : Document} {v : Value}
    (hname : name ≠ "List") (h : Decodes (ofContent? name) content v) :
    Decodes ofSerial? (tagged name content) v := by
  refine ⟨throughout_isExact_tagged h.exact, fun depth hdepth => ?_⟩
  obtain ⟨hlevel, hcontent⟩ := nesting_tagged_lt.mp hdepth
  have hdecode := h.decode _ hcontent
  have hopen : ¬ depth ≤ 1 := Nat.not_le.mpr hlevel
  show ofSerial? depth (.object [(some name, content.tree)]) = some v
  generalize content.tree = tree at hdecode
  cases tree with
  | array items => rw [ofSerial?, if_neg hopen, if_neg hname, hdecode]
  | _ =>
    rw [ofSerial?, if_neg hopen, hdecode]
    simp

theorem ofSerials?_trees {values : List Value} {depth : Nat}
    (h : ∀ v ∈ values, ofSerial? depth v.serial.tree = some v) :
    ofSerials? depth (values.map fun v => v.serial.tree) = some values := by
  induction values with
  | nil => rfl
  | cons v values ih =>
    obtain ⟨hv, hvalues⟩ := List.forall_mem_cons.mp h
    rw [List.map_cons, ofSerials?, hv, ih hvalues]

/-- A list of values whose serial forms are decoded. -/
theorem decodes_listOfSerial? {values : List Value}
    (h : ∀ v ∈ values, Decodes ofSerial? v.serial v) :
    Decodes listOfSerial? (.array (serials values)) values := by
  rw [serials_eq]
  refine ⟨Document.throughout_isExact_array.mpr ?_, fun depth hdepth => ?_⟩
  · rw [List.forall_mem_map]
    exact fun v hv => (h v hv).exact
  · obtain ⟨hlevel, hitems⟩ := Document.nesting_array_lt.mp hdepth
    rw [List.forall_mem_map] at hitems
    rw [Document.tree, Document.trees_eq, listOfSerial?,
      if_neg (Nat.not_le.mpr hlevel), List.map_map]
    exact ofSerials?_trees fun v hv => (h v hv).decode _ (hitems v hv)

theorem decodes_list_tagged {values : List Value}
    (h : Decodes listOfSerial? (.array (serials values)) values) :
    Decodes ofSerial? (Value.list values).serial (.list values) := by
  refine ⟨throughout_isExact_tagged h.exact, fun depth hdepth => ?_⟩
  obtain ⟨hlevel, hcontent⟩ := nesting_tagged_lt.mp hdepth
  have hdecode := h.decode _ hcontent
  have hinner := (Document.nesting_array_lt.mp hcontent).1
  show ofSerial? depth
      (.object [(some "List", .array (Document.trees (serials values)))]) = _
  have hlist : ofSerials? (depth - 1 - 1) (Document.trees (serials values)) =
      some values := by
    rwa [Document.tree, listOfSerial?, if_neg (Nat.not_le.mpr hinner)] at hdecode
  rw [Nat.sub_sub] at hlist
  rw [ofSerial?, if_neg (Nat.not_le.mpr hlevel), if_pos rfl, if_neg (by omega),
    hlist, Option.map_some]

theorem uuidOfBytes?_toList (u : Vector UInt8 16) :
    uuidOfBytes? u.toList = some u := by
  have hsize : u.toList.toArray.size = 16 := by simp
  rw [uuidOfBytes?, dif_pos hsize]
  congr 1

theorem decodes_uuid (u : Vector UInt8 16) :
    Decodes
      (fun depth content => (Serial.list uint8 depth content).bind uuidOfBytes?)
      (byteArray u.toList) u :=
  ⟨(decodes_byteArray u.toList).exact, fun depth hdepth => by
    rw [(decodes_byteArray u.toList).decode depth hdepth]
    exact uuidOfBytes?_toList u⟩

/-- An embedded document is kept as it is. -/
theorem decodes_document {d : Document} (hwf : d.WellFormed)
    (hfloats : ∀ x, Document.float x ∉ d.parts) :
    Decodes (fun depth content => content.document? depth) d d := by
  refine ⟨fun part hpart => ?_, fun depth hdepth =>
    Document.document?_tree hdepth fun part hpart => (hwf part hpart).1⟩
  have hrange := (hwf part hpart).2
  cases part with
  | int n => exact hrange
  | float x => exact hfloats x hpart
  | _ => exact trivial

/-- A value is decoded from its serial form. -/
theorem decodes_serial {v : Value} : v.IsExact → Decodes ofSerial? v.serial v := by
  induction v using induction_on with
  | hlist items ih =>
    intro h
    have hitems := (areExact_iff items).mp h
    exact decodes_list_tagged
      (decodes_listOfSerial? fun v hv => ih v hv (hitems v hv))
  | hleaf v hlist =>
    intro h
    cases v with
    | null => exact ⟨Document.throughout_isExact_leaf rfl trivial, fun _ _ => rfl⟩
    | bool b => exact decodes_tagged (by decide) ((decodes_flag b).map Value.bool)
    | int n => exact decodes_tagged (by decide) ((decodes_int64 n).map Value.int)
    | float x => exact h.elim
    | text s => exact decodes_tagged (by decide) ((decodes_text s).map Value.text)
    | bytes b =>
      exact decodes_tagged (by decide) ((decodes_byteArray b).map Value.bytes)
    | timestamp t =>
      exact decodes_tagged (by decide) ((decodes_int64 t).map Value.timestamp)
    | uuid u => exact decodes_tagged (by decide) ((decodes_uuid u).map Value.uuid)
    | list items => exact absurd rfl (hlist items)
    | json d =>
      exact decodes_tagged (by decide) ((decodes_document h.1 h.2).map Value.json)

end Value

/-! ## Words -/

theorem Operator.decodes_serial (o : Operator) :
    Decodes Operator.ofSerial? o.serial o :=
  decodes_word (by cases o <;> rfl)

theorem Connector.decodes_serial (c : Connector) :
    Decodes Connector.ofSerial? c.serial c :=
  decodes_word (by cases c <;> rfl)

theorem Direction.decodes_serial (d : Direction) :
    Decodes Direction.ofSerial? d.serial d :=
  decodes_word (by cases d <;> rfl)

theorem JoinKind.decodes_serial (k : JoinKind) :
    Decodes JoinKind.ofSerial? k.serial k :=
  decodes_word (by cases k <;> rfl)

/-! ## Predicates -/

namespace Condition

theorem decodes_tagged {name : String} {content : Document} {c : Condition}
    (h : Decodes (ofContent? name) content c) :
    Decodes ofSerial? (tagged name content) c := by
  refine ⟨throughout_isExact_tagged h.exact, fun depth hdepth => ?_⟩
  obtain ⟨hlevel, hcontent⟩ := nesting_tagged_lt.mp hdepth
  rw [ofSerial?, alternative_tagged name content hlevel]
  exact h.decode _ hcontent

/-- A condition on a column and values. -/
theorem decodes_membership (make : String → List Value → Condition)
    (column : String) {values : List Value} (h : ∀ v ∈ values, v.IsExact) :
    Decodes (ofMembership? make) (.object [("column", .string column),
          ("values", .array (Value.serials values))]) (make column values) := by
  have hcolumn := decodes_text column
  have hvalues :=
    Value.decodes_listOfSerial? fun v hv => Value.decodes_serial (h v hv)
  refine decodes_object ["column", "values"] rfl (by decide)
    (by simp [hcolumn.exact, hvalues.exact]) fun depth hdepth hfields => ?_
  rw [ofMembership?, hfields, Option.bind_eq_bind, Option.bind_some]
  refine bind_required "column" hdepth hcolumn rfl ?_
  refine bind_required "values" hdepth hvalues rfl ?_
  rfl

/-- A condition on a column alone. -/
theorem decodes_column (make : String → Condition) (column : String) :
    Decodes (ofColumn? make) (.object [("column", .string column)])
      (make column) := by
  have hcolumn := decodes_text column
  refine decodes_object ["column"] rfl (by decide) (by simp [hcolumn.exact])
    fun depth hdepth hfields => ?_
  rw [ofColumn?, hfields, Option.bind_eq_bind, Option.bind_some]
  refine bind_required "column" hdepth hcolumn rfl ?_
  rfl

/-- A condition is decoded from its serial form. -/
theorem decodes_serial {c : Condition} (h : ∀ v ∈ c.bindings, v.IsExact) :
    Decodes ofSerial? c.serial c := by
  cases c with
  | basic column operator value =>
    have hcolumn := decodes_text column
    have hoperator := operator.decodes_serial
    have hvalue := Value.decodes_serial (h value (by simp [bindings]))
    refine decodes_tagged (decodes_object ["column", "operator", "value"] rfl
      (by decide) (by simp [hcolumn.exact, hoperator.exact, hvalue.exact])
      fun depth hdepth hfields => ?_)
    rw [ofContent?, hfields, Option.bind_eq_bind, Option.bind_some]
    refine bind_required "column" hdepth hcolumn rfl ?_
    refine bind_required "operator" hdepth hoperator rfl ?_
    refine bind_required "value" hdepth hvalue rfl ?_
    rfl
  | isIn column values => exact decodes_tagged (decodes_membership .isIn column h)
  | notIn column values => exact decodes_tagged (decodes_membership .notIn column h)
  | between column low high =>
    have hcolumn := decodes_text column
    have hlow := Value.decodes_serial (h low (by simp [bindings]))
    have hhigh := Value.decodes_serial (h high (by simp [bindings]))
    refine decodes_tagged (decodes_object ["column", "low", "high"] rfl
      (by decide) (by simp [hcolumn.exact, hlow.exact, hhigh.exact])
      fun depth hdepth hfields => ?_)
    rw [ofContent?, hfields, Option.bind_eq_bind, Option.bind_some]
    refine bind_required "column" hdepth hcolumn rfl ?_
    refine bind_required "low" hdepth hlow rfl ?_
    refine bind_required "high" hdepth hhigh rfl ?_
    rfl
  | isNull column => exact decodes_tagged (decodes_column .isNull column)
  | notNull column => exact decodes_tagged (decodes_column .notNull column)
  | token columns operator values =>
    have hcolumns := decodes_texts columns
    have hoperator := operator.decodes_serial
    have hvalues :
        Decodes Value.listOfSerial? (.array (Value.serials values)) values :=
      Value.decodes_listOfSerial? fun v hv => Value.decodes_serial (h v hv)
    refine decodes_tagged (decodes_object ["columns", "operator", "values"] rfl
      (by decide) (by simp [hcolumns.exact, hoperator.exact, hvalues.exact])
      fun depth hdepth hfields => ?_)
    rw [ofContent?, hfields, Option.bind_eq_bind, Option.bind_some]
    refine bind_required "columns" hdepth hcolumns rfl ?_
    refine bind_required "operator" hdepth hoperator rfl ?_
    refine bind_required "values" hdepth hvalues rfl ?_
    rfl
  | raw text =>
    have htext := decodes_text text
    refine decodes_tagged (decodes_object ["sql"] rfl (by decide)
      (by simp [htext.exact]) fun depth hdepth hfields => ?_)
    rw [ofContent?, hfields, Option.bind_eq_bind, Option.bind_some]
    refine bind_required "sql" hdepth htext rfl ?_
    rfl

end Condition

namespace Predicate

theorem decodes_serial {p : Predicate} (h : ∀ v ∈ p.bindings, v.IsExact) :
    Decodes ofSerial? p.serial p := by
  have hconnector := p.connector.decodes_serial
  have hcondition := Condition.decodes_serial h
  refine decodes_object ["boolean", "kind"] rfl (by decide)
    (by simp [hconnector.exact, hcondition.exact]) fun depth hdepth hfields => ?_
  rw [ofSerial?, hfields, Option.bind_eq_bind, Option.bind_some]
  refine bind_required "boolean" hdepth hconnector rfl ?_
  refine bind_required "kind" hdepth hcondition rfl ?_
  rfl

theorem decodes_serials {predicates : List Predicate}
    (h : ∀ v ∈ allBindings predicates, v.IsExact) :
    Decodes (list ofSerial?) (serials predicates) predicates :=
  decodes_list fun p hp =>
    decodes_serial fun v hv => h v (List.mem_flatMap.mpr ⟨p, hp, hv⟩)

end Predicate

/-! ## Intents -/

theorem Selection.decodes_serial (s : Selection) :
    Decodes Selection.ofSerial? s.serial s := by
  cases s with
  | all => exact ⟨Document.throughout_isExact_leaf rfl trivial, fun _ _ => rfl⟩
  | columns names =>
    have hnames := decodes_texts names
    refine ⟨throughout_isExact_tagged hnames.exact, fun depth hdepth => ?_⟩
    obtain ⟨hlevel, hcontent⟩ := nesting_tagged_lt.mp hdepth
    rw [Selection.serial, Selection.ofSerial?, alternative_tagged _ _ hlevel]
    exact congrArg (Option.map Selection.columns) (hnames.decode _ hcontent)

theorem Join.decodes_serial (j : Join) : Decodes Join.ofSerial? j.serial j := by
  have hkind := j.kind.decodes_serial
  have htable := decodes_text j.table
  have hfirst := decodes_text j.first
  have hoperator := j.operator.decodes_serial
  have hsecond := decodes_text j.second
  refine decodes_object ["kind", "table", "first", "operator", "second"] rfl
    (by decide) (by
      simp [hkind.exact, htable.exact, hfirst.exact, hoperator.exact,
        hsecond.exact]) fun depth hdepth hfields => ?_
  rw [Join.ofSerial?, hfields, Option.bind_eq_bind, Option.bind_some]
  refine bind_required "kind" hdepth hkind rfl ?_
  refine bind_required "table" hdepth htable rfl ?_
  refine bind_required "first" hdepth hfirst rfl ?_
  refine bind_required "operator" hdepth hoperator rfl ?_
  refine bind_required "second" hdepth hsecond rfl ?_
  rfl

theorem Order.decodes_serial (o : Order) : Decodes Order.ofSerial? o.serial o := by
  have hcolumn := decodes_text o.column
  have hdirection := o.direction.decodes_serial
  refine decodes_object ["column", "direction"] rfl (by decide)
    (by simp [hcolumn.exact, hdirection.exact]) fun depth hdepth hfields => ?_
  rw [Order.ofSerial?, hfields, Option.bind_eq_bind, Option.bind_some]
  refine bind_required "column" hdepth hcolumn rfl ?_
  refine bind_required "direction" hdepth hdirection rfl ?_
  rfl

namespace Intent

/-- No predicate of the intent binds a floating point number. -/
def IsExact (q : Intent) : Prop :=
  ∀ v ∈ Predicate.allBindings (q.wheres ++ q.havings ++ q.ifConditions), v.IsExact

theorem decodes_serial {q : Intent} (h : q.IsExact) :
    Decodes ofSerial? q.serial q := by
  have hbindings : ∀ predicates,
      predicates ⊆ q.wheres ++ q.havings ++ q.ifConditions →
        ∀ v ∈ Predicate.allBindings predicates, v.IsExact := by
    intro predicates hsubset v hv
    obtain ⟨p, hp, hbound⟩ := List.mem_flatMap.mp hv
    exact h v (List.mem_flatMap.mpr ⟨p, hsubset hp, hbound⟩)
  have htable := decodes_text q.table
  have hselection := q.selection.decodes_serial
  have hwheres := Predicate.decodes_serials (hbindings q.wheres (by simp))
  have hjoins := decodes_list fun j (_ : j ∈ q.joins) => j.decodes_serial
  have hgroups := decodes_texts q.groups
  have hhavings := Predicate.decodes_serials (hbindings q.havings (by simp))
  have horders := decodes_list fun o (_ : o ∈ q.orders) => o.decodes_serial
  have hlimit :=
    decodes_optional (o := q.limit) (fun n _ => decodes_uint64 n) (by simp)
  have hoffset :=
    decodes_optional (o := q.offset) (fun n _ => decodes_uint64 n) (by simp)
  have hfiltering := decodes_flag q.allowFiltering
  have httl := decodes_optional (o := q.ttl) (fun n _ => decodes_uint32 n) (by simp)
  have habsent := decodes_flag q.ifNotExists
  have hconditions := Predicate.decodes_serials (hbindings q.ifConditions (by simp))
  refine decodes_object fieldNames rfl (by decide) (by
    simp [htable.exact, hselection.exact, hwheres.exact, hjoins.exact,
      hgroups.exact, hhavings.exact, horders.exact, hlimit.exact, hoffset.exact,
      hfiltering.exact, httl.exact, habsent.exact, hconditions.exact])
    fun depth hdepth hfields => ?_
  rw [ofSerial?, hfields, Option.bind_eq_bind, Option.bind_some]
  refine bind_required "table" hdepth htable rfl ?_
  refine bind_required "columns" hdepth hselection rfl ?_
  refine bind_required "wheres" hdepth hwheres rfl ?_
  refine bind_required "joins" hdepth hjoins rfl ?_
  refine bind_required "groups" hdepth hgroups rfl ?_
  refine bind_required "havings" hdepth hhavings rfl ?_
  refine bind_required "orders" hdepth horders rfl ?_
  refine bind_optional "limit" hdepth hlimit rfl ?_
  refine bind_optional "offset" hdepth hoffset rfl ?_
  refine bind_required "allow_filtering" hdepth hfiltering rfl ?_
  refine bind_optional "ttl" hdepth httl rfl ?_
  refine bind_required "if_not_exists" hdepth habsent rfl ?_
  refine bind_required "if_conditions" hdepth hconditions rfl ?_
  rfl

/-- A saved intent is loaded as it was, and is compiled as it was. -/
theorem read_serial {q : Intent} (h : q.IsExact)
    (hnesting : q.serial.nesting ≤ 127) :
    ∃ loaded, Serial.read ofSerial? q.serial.text = some loaded ∧ loaded = q ∧
      ∀ (g : Grammar) (r : Request), g.compile loaded r = g.compile q r :=
  ⟨q, (decodes_serial h).read_text hnesting, rfl, fun _ _ => rfl⟩

/-- A query with the lowest integer inside a list, a text with quotes, and a
document with the greatest number. -/
def savedQuery : Intent where
  table := "shops"
  selection := .columns ["id", "name"]
  wheres := [⟨.and, .isIn
      "codes" [.list [.int (-9223372036854775808), .text "a \"b\"\n"], .null]⟩,
    ⟨.or, .basic "doc" .eq (.json (.object [("n", .int 18446744073709551615)]))⟩]
  joins := [⟨.left, "owners", "shops.owner_id", .eq, "owners.id"⟩]
  orders := [⟨"name", .desc⟩]
  limit := some 0
  ttl := some 4294967295

theorem read_serial_savedQuery :
    Serial.read ofSerial? savedQuery.serial.text = some savedQuery := by
  have hexact : savedQuery.IsExact := by
    have hdocument :
        (Document.object [("n", .int 18446744073709551615)]).WellFormed := by
      decide +kernel
    simp [IsExact, savedQuery, Predicate.allBindings, Predicate.bindings,
      Condition.bindings, Value.IsExact, Value.AreExact, hdocument,
      Document.parts, Document.memberParts]
  obtain ⟨loaded, hread, rfl, -⟩ := read_serial hexact (by decide)
  exact hread

end Intent

end EntityMapper
