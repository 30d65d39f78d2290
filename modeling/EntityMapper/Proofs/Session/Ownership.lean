import EntityMapper.Proofs.Session.RelationRows
import EntityMapper.Proofs.Store.KeyAddress

/-!
# Owners and the rows that they own

An owns-many relation and the belongs-to relation of the same columns read one
link from its two ends, each with a query of its own. A row is in the list of an
owner iff its own query finds that owner. Every row of the list is found by the
query that compares its foreign key with the owner's key; the other query
compares the two the other way round and stops at the first owner that it finds,
so keys of owners have to be different, and of one type with the foreign keys,
since between types a filter may find two different keys equal to a third.
-/

namespace EntityMapper

namespace Session

open Effect Store

variable {s : Session LocalStore} {store : LocalStore} {owner child : EntityType}
  {owning belonging key foreignKey : String} {owners children : Table}
  {type : String}

/-- A session on a local store, in which one entity type owns the records of
another by a key, both types declare so, and all names are read back. -/
structure Links (s : Session LocalStore) (owner child : EntityType)
    (owning belonging key foreignKey : String) : Prop where
  backend : s.backend = LocalStore.backend
  owning : ∃ target,
    owner.relations.get? owning = some (.ownsMany ⟨target, foreignKey, key⟩) ∧
      s.entity target = .ok child
  belonging : ∃ target,
    child.relations.get? belonging = some (.belongsTo ⟨target, foreignKey, key⟩) ∧
      s.entity target = .ok owner
  ownerTable : s.grammar.ReadsBackTable owner.table
  childTable : s.grammar.ReadsBackTable child.table
  key : s.grammar.NamesColumn key
  foreignKey : s.grammar.NamesColumn foreignKey

/-- An owner's list has the rows with its key, in the order of the table. -/
theorem Links.resolve_owning
    (h : s.Links owner child owning belonging key foreignKey)
    (hchildren : store.database.tables.get? (columnOf child.table) = some children)
    (p : Row) :
    (s.resolve (.hydrate owner p) owning store).1 =
      .ok (.many ((children.rows.filter fun c => valuesEqual (cell c foreignKey)
          (cell p key)).map (Record.hydrate child))) := by
  obtain ⟨target, hrelation, hentity⟩ := h.owning
  unfold resolve
  rw [resolve_of_declared hrelation, bind_ok (orThrow_apply _ _)]
  calc
    (s.resolveDirect (.hydrate owner p) owning target _ store).1 =
        .ok (found child true (fun other =>
          valuesEqual (cell other foreignKey) (cell p key) &&
            meets [] other) children.rows) :=
      resolveDirect_ok h.backend hentity h.childTable key foreignKey []
        (fun _ => rfl) h.foreignKey (List.forall_mem_nil _) hchildren
    _ = .ok (.many ((children.rows.filter fun c =>
          valuesEqual (cell c foreignKey) (cell p key)).map
            (Record.hydrate child))) := by
      simp only [meets, List.all_nil, Bool.and_true]
      rfl

/-- The owner of a row is the first one with the key that it holds. -/
theorem Links.resolve_belonging
    (h : s.Links owner child owning belonging key foreignKey)
    (howners : store.database.tables.get? (columnOf owner.table) = some owners)
    (c : Row) :
    (s.resolve (.hydrate child c) belonging store).1 =
      .ok (.one ((owners.rows.find? fun p => valuesEqual (cell p key)
          (cell c foreignKey)).map (Record.hydrate owner))) := by
  obtain ⟨target, hrelation, hentity⟩ := h.belonging
  unfold resolve
  rw [resolve_of_declared hrelation, bind_ok (orThrow_apply _ _)]
  calc
    (s.resolveDirect (.hydrate child c) belonging target _ store).1 =
        .ok (found owner false (fun other =>
          valuesEqual (cell other key) (cell c foreignKey) &&
            meets [] other) owners.rows) :=
      resolveDirect_ok h.backend hentity h.ownerTable foreignKey key []
        (fun _ => rfl) h.key (List.forall_mem_nil _) howners
    _ = .ok (.one ((owners.rows.find? fun p =>
          valuesEqual (cell p key) (cell c foreignKey)).map
            (Record.hydrate owner))) := by
      simp only [meets, List.all_nil, Bool.and_true]
      rfl

/-- Of owners with different keys of one type a filter finds at most one by a
value, unless it seeks a floating point number among integers. -/
theorem pairwise_finds {rows : List Row}
    (hkeys : ∀ p ∈ rows, OfType type (cell p key))
    (hdistinct : rows.Pairwise fun p q => (cell p key == cell q key) = false)
    {value : Value} (hvalue : type = "int" → value.typeName ≠ "float") :
    rows.Pairwise fun p q =>
      valuesEqual (cell p key) value = true →
          valuesEqual (cell q key) value = false := by
  have htype {p : Row} (hp : p ∈ rows)
      (hfound : valuesEqual (cell p key) value = true) :
      (cell p key).typeName = type :=
    (hkeys p hp).resolve_left (by simp [isNull_of_valuesEqual hfound])
  refine hdistinct.imp_of_mem fun {p q} hp hq hdifferent hfound => ?_
  by_contra hagain
  rw [Bool.not_eq_false] at hagain
  have hkind : SameKind (cell p key) (cell q key) value :=
    ⟨(htype hp hfound).trans (htype hq hagain).symm,
      fun hint => hvalue (htype hp hfound ▸ hint)⟩
  rw [beq_of_valuesEqual hkind hfound hagain] at hdifferent
  cases hdifferent

/-- A row is in an owner's list iff the owner of the row is that one. The list
is the table of the rows without those that are left out, so it is in table
order and has no row twice. A row without a foreign key has no owner and is in
no list. -/
theorem owned_iff_owner (h : s.Links owner child owning belonging key foreignKey)
    (howners : store.database.tables.get? (columnOf owner.table) = some owners)
    (hchildren : store.database.tables.get? (columnOf child.table) = some children)
    (hkeys : ∀ p ∈ owners.rows, OfType type (cell p key))
    (hforeign : ∀ c ∈ children.rows, OfType type (cell c foreignKey))
    (hdistinct : owners.rows.Pairwise
      fun p q => (cell p key == cell q key) = false) :
    (∀ p ∈ owners.rows,
      ∃ owned : Row → Bool, (s.resolve (.hydrate owner p) owning store).1 =
          .ok (.many ((children.rows.filter owned).map (Record.hydrate child))) ∧
        ∀ c ∈ children.rows, (owned c = true ↔
            (s.resolve (.hydrate child c) belonging store).1 =
              .ok (.one (some (.hydrate owner p))))) ∧
      ∀ c ∈ children.rows, (cell c foreignKey).isNull = true →
        (s.resolve (.hydrate child c) belonging store).1 = .ok (.one none) ∧
          ∀ p ∈ owners.rows, ∀ records,
            (s.resolve (.hydrate owner p) owning store).1 = .ok (.many records) →
              .hydrate child c ∉ records := by
  refine ⟨fun p hp => ⟨_, h.resolve_owning hchildren p, fun c hc => ?_⟩,
    fun c hc hnull => ⟨?_, ?_⟩⟩
  · have hunique := pairwise_finds hkeys hdistinct (hforeign c hc).not_float
    calc
      valuesEqual (cell c foreignKey) (cell p key) = true ↔
          valuesEqual (cell p key) (cell c foreignKey) = true := by
        rw [valuesEqual_comm]
      _ ↔ (owners.rows.find? fun p =>
            valuesEqual (cell p key) (cell c foreignKey)).map
              (Record.hydrate owner) = some (.hydrate owner p) :=
        (Record.map_find?_hydrate_iff hunique hp).symm
      _ ↔ (s.resolve (.hydrate child c) belonging store).1 =
          .ok (.one (some (.hydrate owner p))) := by
        rw [h.resolve_belonging howners, Except.ok.injEq, Related.one.injEq]
  · rw [h.resolve_belonging howners, List.find?_eq_none.mpr fun p _ => ?_]
    · rfl
    · simp [valuesEqual, hnull]
  · intro p _ records hrecords hmem
    rw [h.resolve_owning hchildren, Except.ok.injEq, Related.many.injEq] at hrecords
    rw [← hrecords, List.mem_map_of_injective (Record.hydrate_injective child)]
      at hmem
    have hfound := (List.mem_filter.mp hmem).2
    simp [valuesEqual, hnull] at hfound

/-! ### Customers and their orders -/

def customerType : EntityType where
  name := "Customer"
  table := "customers"
  relations := .ofList [("orders", .ownsMany ⟨"Order", "customer_id", "id"⟩)]

def orderType : EntityType where
  name := "Order"
  table := "orders"
  relations := .ofList [("customer", .belongsTo ⟨"Customer", "customer_id", "id"⟩)]

def orderSession : Session LocalStore :=
  ((Session.new { dialect := .sql } LocalStore.backend).register
    customerType).register orderType

def secondCustomer : Row := .ofList [("id", .int 2)]

def customers : List Row := [.ofList [("id", .int 1)], secondCustomer]

def openOrder : Row := .ofList [("id", .int 10), ("customer_id", .int 2)]

def strayOrder : Row := .ofList [("id", .int 11), ("customer_id", .null)]

/-- The last order is of a customer that is gone. -/
def orders : List Row :=
  [openOrder, strayOrder, .ofList [("id", .int 12), ("customer_id", .int 3)]]

def orderStore : LocalStore where
  database :=
    { tables := .ofList
        [("customers", ⟨["id"], customers⟩), ("orders", ⟨["id"], orders⟩)] }

theorem links_orders : orderSession.Links customerType orderType "orders"
    "customer" "id" "customer_id" where
  backend := rfl
  owning := ⟨"Order", rfl, rfl⟩
  belonging := ⟨"Customer", rfl, rfl⟩
  ownerTable := Grammar.ReadableTable.readsBack (by decide)
  childTable := Grammar.ReadableTable.readsBack (by decide)
  key := ⟨Grammar.ReadablePath.readsBack (by decide), by decide⟩
  foreignKey := ⟨Grammar.ReadablePath.readsBack (by decide), by decide⟩

/-- An order is found from its customer, and the customer from the order. -/
theorem owned_iff_owner_orders : ∃ owned : Row → Bool, (orderSession.resolve
      (.hydrate customerType secondCustomer) "orders" orderStore).1 =
      .ok (.many ((orders.filter owned).map (Record.hydrate orderType))) ∧
    owned openOrder = true ∧
    (orderSession.resolve (.hydrate orderType openOrder) "customer" orderStore).1 =
      .ok (.one (some (.hydrate customerType secondCustomer))) ∧
    (orderSession.resolve (.hydrate orderType strayOrder) "customer" orderStore).1 =
      .ok (.one none) := by
  have howners : orderStore.database.tables.get? (columnOf customerType.table) =
      some ⟨["id"], customers⟩ := rfl
  have hkeys : ∀ p ∈ customers, OfType "int" (cell p "id") := by decide
  have hforeign : ∀ c ∈ orders, OfType "int" (cell c "customer_id") := by decide
  have howner := links_orders.resolve_belonging howners openOrder
  obtain ⟨howned, hstray⟩ :=
    owned_iff_owner links_orders howners rfl hkeys hforeign (by decide)
  obtain ⟨owned, hlist, hiff⟩ :=
    howned secondCustomer (List.mem_cons_of_mem _ (List.mem_singleton_self _))
  exact ⟨owned, hlist, (hiff openOrder (List.mem_cons_self ..)).mpr howner, howner,
    (hstray strayOrder (List.mem_cons_of_mem _ (List.mem_cons_self ..)) rfl).1⟩

end Session

end EntityMapper
