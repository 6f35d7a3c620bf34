import Mathlib.Data.List.Basic

/-!
# LearnWords.Catalog

The MySQL server as `database::async_init` finds it: whether the database of
the program exists, which tables stand there under the names of its own, what
the account of the program may do, and what the session of its connection has
selected and prepared.

```
CREATE DATABASE IF NOT EXISTS `learnwords_tg`
USE `learnwords_tg`
CREATE TABLE IF NOT EXISTS `sentences`( … )
CREATE TABLE IF NOT EXISTS `settings`( … )
CREATE TABLE IF NOT EXISTS `user_data`( …
    CONSTRAINT FOREIGN KEY(`tg_user_id`) REFERENCES `settings`(`tg_user_id`) …
    CONSTRAINT FOREIGN KEY(`sentence_id`) REFERENCES `sentences`(`id`) …
)
```

None of these statements touches a table that exists.  So if somebody else has
made it, it need not have the columns that later statements name, and these are
refused; a server that `Mysql.Has .own` has no such tables.  The rows of
`settings` are in `LearnWords.Settings`.
-/

namespace LearnWords

/-! ## tables -/

/-- The tables of `learnwords_tg`. -/
inductive TableName where
  | sentences
  | settings
  | userData
deriving DecidableEq

/-- The type of a column. -/
inductive ColumnType where
  /-- `BIGINT UNSIGNED NOT NULL` -/
  | bigintUnsigned
  /-- `TINYINT UNSIGNED NOT NULL` -/
  | tinyintUnsigned
  | date
  | time
  | tinytext
  /-- one that no column of the program's tables has -/
  | other
deriving DecidableEq

/-- A table: its columns, and those of its primary key. -/
structure TableShape where
  columns : List (String × ColumnType)
  primaryKey : List String
deriving DecidableEq

/-- The table that the program's own statement creates. -/
def TableName.shape : TableName → TableShape
  | .sentences =>
      ⟨[("id", .bigintUnsigned), ("date_added", .date), ("sentence", .tinytext)], ["id"]⟩
  | .settings =>
      ⟨[("tg_user_id", .bigintUnsigned), ("remind_time", .time), ("state", .tinyintUnsigned)],
        ["tg_user_id"]⟩
  | .userData =>
      ⟨[("tg_user_id", .bigintUnsigned), ("sentence_id", .bigintUnsigned)],
        ["tg_user_id", "sentence_id"]⟩

/-- The columns of other tables that its foreign keys refer to. -/
def TableName.references : TableName → List (TableName × String)
  | .sentences | .settings => []
  | .userData => [(.settings, "tg_user_id"), (.sentences, "id")]

/-- Has the table the column? -/
def TableShape.has (s : TableShape) (column : String) : Bool := (s.columns.lookup column).isSome

/-- Can a foreign key of the program's tables refer to the column?  It has to be
of the same type, and indexed. -/
def TableShape.isReferable (s : TableShape) (column : String) : Bool :=
  s.columns.lookup column == some .bigintUnsigned && s.primaryKey.head? == some column

/-! ## statements -/

/-- The statements `async_init` executes, by the names of their queries. -/
inductive SetupQuery where
  | createDb
  | useDb
  | createSentences
  | createSettings
  | createUserData
deriving DecidableEq

/-- The statements it prepares. -/
inductive PreparedQuery where
  | getState
  | setState
  | addSentence
deriving DecidableEq

/-- The table a prepared statement is about. -/
def PreparedQuery.table : PreparedQuery → TableName
  | .getState | .setState => .settings
  | .addSentence => .sentences

/-- The columns it names. -/
def PreparedQuery.columns : PreparedQuery → List String
  | .getState | .setState => ["state", "tg_user_id"]
  | .addSentence => ["sentence"]

/-- What an account may be granted. -/
inductive Privilege where
  | create
  | references
  | select
  | update
  | insert
deriving DecidableEq

/-- What a statement takes. -/
def SetupQuery.privileges : SetupQuery → List Privilege
  | .createDb | .createSentences | .createSettings => [.create]
  | .useDb => []
  | .createUserData => [.create, .references]

def PreparedQuery.privileges : PreparedQuery → List Privilege
  | .getState => [.select]
  | .setState => [.update, .select]
  | .addSentence => [.insert]

/-- Why the server refuses a statement. -/
inductive MysqlError where
  | notConnected
  | accessDenied
  | unknownDatabase
  | noDatabaseSelected
  | noSuchTable
  | unknownColumn
  | missingReference
deriving DecidableEq

/-! ## the server -/

/-- What exists on the server: tables are in a database. -/
structure Catalog where
  database : Bool
  tables : TableName → Option TableShape
  inDatabase : ∀ t, (tables t).isSome = true → database = true

/-- The session of a connection. -/
structure DbSession where
  /-- `learnwords_tg` is the current database -/
  selected : Bool
  prepared : List PreparedQuery

/-- The server, what it has granted to the program's account, and the program's
connection to it. -/
structure Mysql where
  catalog : Catalog
  grants : Privilege → Bool
  session : Option DbSession

namespace Catalog

/-- A server the program has never been connected to. -/
def empty : Catalog := ⟨false, fun _ => none, by simp⟩

/-- `CREATE DATABASE IF NOT EXISTS`. -/
def createDatabase (c : Catalog) : Catalog := { c with database := true, inDatabase := fun _ _ => rfl }

/-- A new table. -/
def addTable (c : Catalog) (t : TableName) (hdb : c.database = true) : Catalog where
  database := c.database
  tables := fun x => if x = t then some t.shape else c.tables x
  inDatabase := fun _ _ => hdb

/-- `CREATE TABLE IF NOT EXISTS`. -/
def createTable (c : Catalog) (t : TableName) : Except MysqlError Catalog :=
  if (c.tables t).isSome then .ok c
  else if hdb : c.database = true then
    if t.references.all fun r => (c.tables r.1).any fun s => s.isReferable r.2 then
      .ok (c.addTable t hdb)
    else .error .missingReference
  else .error .unknownDatabase

end Catalog

namespace Mysql

/-- Are all of these granted? -/
def grantsAll (m : Mysql) (ps : List Privilege) : Bool := ps.all m.grants

/-- `CREATE TABLE IF NOT EXISTS` in the current database. -/
def createTable (m : Mysql) (s : DbSession) (t : TableName) : Except MysqlError Mysql :=
  if s.selected then (m.catalog.createTable t).map fun c => { m with catalog := c }
  else .error .noDatabaseSelected

/-- Execute one of the statements of `async_init`. -/
def execute (m : Mysql) (q : SetupQuery) : Except MysqlError Mysql :=
  match m.session with
  | none => .error .notConnected
  | some s =>
      if !m.grantsAll q.privileges then .error .accessDenied
      else match q with
      | .createDb => .ok { m with catalog := m.catalog.createDatabase }
      | .useDb =>
          if m.catalog.database then .ok { m with session := some { s with selected := true } }
          else .error .unknownDatabase
      | .createSentences => m.createTable s .sentences
      | .createSettings => m.createTable s .settings
      | .createUserData => m.createTable s .userData

/-- Prepare a statement. -/
def prepare (m : Mysql) (q : PreparedQuery) : Except MysqlError Mysql :=
  match m.session with
  | none => .error .notConnected
  | some s =>
      if !s.selected then .error .noDatabaseSelected
      else match m.catalog.tables q.table with
        | none => .error .noSuchTable
        | some shape =>
            if !q.columns.all shape.has then .error .unknownColumn
            else if !m.grantsAll q.privileges then .error .accessDenied
            else .ok { m with session := some { s with prepared := s.prepared ++ [q] } }

/-- Is the column `state` of `settings` that of the program?  Otherwise its
values need not be bytes. -/
def statesAreBytes (m : Mysql) : Bool :=
  (m.catalog.tables .settings).any fun s => s.columns.lookup "state" == some .tinyintUnsigned

/-- A connection begins a session. -/
def connect (m : Mysql) : Mysql := { m with session := some ⟨false, []⟩ }

/-- A connection that is gone takes its session with it. -/
def disconnect (m : Mysql) : Mysql := { m with session := none }

end Mysql

/-! ## what a statement needs, and what it makes -/

/-- The facts about the server that statements depend on. -/
inductive DbFact where
  /-- the account may do what the statements take -/
  | granted
  /-- the tables that exist are the program's own -/
  | own
  | connected
  | selected
  | database
  | table (t : TableName)
  | prepared (q : PreparedQuery)
deriving DecidableEq

/-- A fact holds of the server and the session. -/
def Mysql.Has (m : Mysql) : DbFact → Prop
  | .granted => ∀ p, m.grants p = true
  | .own => ∀ t s, m.catalog.tables t = some s → s = t.shape
  | .connected => m.session.isSome = true
  | .selected => ∃ s, m.session = some s ∧ s.selected = true
  | .database => m.catalog.database = true
  | .table t => (m.catalog.tables t).isSome = true
  | .prepared q => ∃ s, m.session = some s ∧ q ∈ s.prepared

/-- What a statement needs. -/
def SetupQuery.needs : SetupQuery → List DbFact
  | .createDb => [.granted, .connected]
  | .useDb => [.granted, .connected, .database]
  | .createSentences => [.granted, .connected, .database, .selected]
  | .createSettings => [.granted, .connected, .database, .selected]
  | .createUserData =>
      [.granted, .connected, .database, .selected, .own, .table .settings, .table .sentences]

/-- What it makes. -/
def SetupQuery.makes : SetupQuery → List DbFact
  | .createDb => [.database]
  | .useDb => [.selected]
  | .createSentences => [.table .sentences]
  | .createSettings => [.table .settings]
  | .createUserData => [.table .userData]

/-- What a statement that is prepared needs. -/
def PreparedQuery.needs (q : PreparedQuery) : List DbFact :=
  [.granted, .selected, .own, .table q.table]

/-- Nothing that held is gone. -/
def Mysql.Extends (m m' : Mysql) : Prop := ∀ f, m.Has f → m'.Has f

theorem Mysql.Extends.refl (m : Mysql) : m.Extends m := fun _ hf => hf

/-- A connected server has a session. -/
theorem Mysql.Has.session {m : Mysql} (h : m.Has .connected) : ∃ s, m.session = some s :=
  Option.isSome_iff_exists.mp h

theorem Mysql.Has.grantsAll {m : Mysql} (h : m.Has .granted) (ps : List Privilege) :
    m.grantsAll ps = true :=
  List.all_eq_true.mpr fun p _ => h p

/-- A table of the program's own. -/
theorem Mysql.Has.shape {m : Mysql} {t : TableName} (hown : m.Has .own) (h : m.Has (.table t)) :
    m.catalog.tables t = some t.shape := by
  obtain ⟨s, hs⟩ := Option.isSome_iff_exists.mp h
  rw [hs, hown t s hs]

/-- The values of its own column `state` are bytes. -/
theorem Mysql.Has.statesAreBytes {m : Mysql} (hown : m.Has .own) (h : m.Has (.table .settings)) :
    m.statesAreBytes = true := by
  rw [Mysql.statesAreBytes, hown.shape h]
  rfl

/-! ## what is not refused -/

/-- The tables that a table of the program refers to have the columns for it. -/
theorem isReferable_shape {t : TableName} : ∀ r ∈ t.references, r.1.shape.isReferable r.2 = true := by
  cases t <;> decide

theorem has_shape (q : PreparedQuery) : q.columns.all q.table.shape.has = true := by
  cases q <;> decide

/-- A table is made in the current database, if those it refers to exist. -/
theorem createTable_accepts {m : Mysql} {s : DbSession} {t : TableName} (hsession : m.session = some s)
    (hselected : m.Has .selected) (hdatabase : m.Has .database)
    (hrefs : ∀ r ∈ t.references, m.Has .own ∧ m.Has (.table r.1)) :
    ∃ m', m.createTable s t = .ok m' := by
  obtain ⟨s', hs', hsel⟩ := hselected
  rw [hsession, Option.some.injEq] at hs'
  subst hs'
  have hdb : m.catalog.database = true := hdatabase
  have hall : (t.references.all fun r => (m.catalog.tables r.1).any fun s => s.isReferable r.2) =
      true := by
    refine List.all_eq_true.mpr fun r hr => ?_
    rw [(hrefs r hr).1.shape (hrefs r hr).2]
    exact isReferable_shape r hr
  rw [Mysql.createTable, if_pos hsel, Catalog.createTable, dif_pos hdb, if_pos hall]
  split <;> exact ⟨_, rfl⟩

/-- A statement that has what it needs is not refused. -/
theorem execute_accepts {m : Mysql} {q : SetupQuery} (h : ∀ f ∈ q.needs, m.Has f) :
    ∃ m', m.execute q = .ok m' := by
  have hconnected : m.Has .connected := h _ (by cases q <;> simp [SetupQuery.needs])
  have hgranted : m.Has .granted := h _ (by cases q <;> simp [SetupQuery.needs])
  obtain ⟨s, hs⟩ := hconnected.session
  simp only [Mysql.execute, hs, hgranted.grantsAll, Bool.not_true, Bool.false_eq_true, if_false]
  cases q with
  | createDb => exact ⟨_, rfl⟩
  | useDb =>
      have hdb : m.catalog.database = true := h .database (by simp [SetupQuery.needs])
      exact ⟨_, if_pos hdb⟩
  | createSentences | createSettings =>
      simp only [SetupQuery.needs] at h
      exact createTable_accepts hs (h .selected (by simp)) (h .database (by simp))
        fun r hr => absurd hr List.not_mem_nil
  | createUserData =>
      simp only [SetupQuery.needs] at h
      refine createTable_accepts hs (h .selected (by simp)) (h .database (by simp)) fun r hr => ?_
      refine ⟨h .own (by simp), h (.table r.1) ?_⟩
      simp only [TableName.references, List.mem_cons, List.not_mem_nil, or_false] at hr
      rcases hr with rfl | rfl <;> simp

/-- Nor is one that is prepared. -/
theorem prepare_accepts {m : Mysql} {q : PreparedQuery} (h : ∀ f ∈ q.needs, m.Has f) :
    ∃ m', m.prepare q = .ok m' := by
  simp only [PreparedQuery.needs, List.mem_cons, List.not_mem_nil, or_false, forall_eq_or_imp,
    forall_eq] at h
  obtain ⟨hgranted, ⟨s, hs, hsel⟩, hown, htable⟩ := h
  refine ⟨{ m with session := some { s with prepared := s.prepared ++ [q] } }, ?_⟩
  simp [Mysql.prepare, hs, hsel, hown.shape htable, has_shape, hgranted.grantsAll]

/-! ## what is made, and what lasts -/

/-- What exists on one server exists on the other, as it is. -/
structure Catalog.Within (c c' : Catalog) : Prop where
  database : c.database = true → c'.database = true
  tables : ∀ t s, c.tables t = some s → c'.tables t = some s

theorem Catalog.Within.refl (c : Catalog) : c.Within c := ⟨id, fun _ _ => id⟩

theorem Catalog.Within.trans {c c' c'' : Catalog} (h : c.Within c') (h' : c'.Within c'') :
    c.Within c'' :=
  ⟨fun hdb => h'.database (h.database hdb), fun t s ht => h'.tables t s (h.tables t s ht)⟩

/-- The table is there afterwards, and nothing is changed but that it may be new. -/
theorem createTable_spec {m m' : Mysql} {s : DbSession} {t : TableName}
    (h : m.createTable s t = .ok m') :
    m.catalog.Within m'.catalog ∧ m.Extends m' ∧ m'.Has (.table t) := by
  unfold Mysql.createTable at h
  split at h
  · unfold Catalog.createTable at h
    split at h
    · next hexists =>
        cases h
        exact ⟨.refl _, .refl m, hexists⟩
    · next hnew =>
        split at h
        · next hdb =>
            split at h
            · cases h
              have hkeep : ∀ x shape, m.catalog.tables x = some shape →
                  (m.catalog.addTable t hdb).tables x = some shape := by
                intro x shape hx
                have hne : x ≠ t := by
                  rintro rfl
                  exact hnew (Option.isSome_iff_exists.mpr ⟨shape, hx⟩)
                simp [Catalog.addTable, hne, hx]
              refine ⟨⟨id, hkeep⟩, fun f hf => ?_, by simp [Mysql.Has, Catalog.addTable]⟩
              cases f with
              | own =>
                  intro x shape hx
                  simp only [Catalog.addTable] at hx
                  split at hx
                  · next hxt => rw [← Option.some.inj hx, hxt]
                  · exact hf x shape hx
              | table x =>
                  obtain ⟨shape, hx⟩ := Option.isSome_iff_exists.mp hf
                  exact Option.isSome_iff_exists.mpr ⟨shape, hkeep x shape hx⟩
              | granted | connected | selected | database | prepared => exact hf
            · contradiction
        · contradiction
  · contradiction

/-- A statement that is executed makes what it is for; nothing is dropped, and
nothing that held is gone. -/
theorem execute_spec {m m' : Mysql} {q : SetupQuery} (h : m.execute q = .ok m') :
    m.catalog.Within m'.catalog ∧ m.Extends m' ∧ ∀ f ∈ q.makes, m'.Has f := by
  unfold Mysql.execute at h
  split at h
  · contradiction
  · next s hs =>
      split at h
      · contradiction
      · cases q with
        | createDb =>
            cases h
            refine ⟨⟨fun _ => rfl, fun _ _ => id⟩, fun f hf => ?_,
              by simp [SetupQuery.makes, Mysql.Has, Catalog.createDatabase]⟩
            cases f with
            | database => rfl
            | granted | own | connected | selected | table | prepared => exact hf
        | useDb =>
            simp only at h
            split at h
            · cases h
              refine ⟨.refl _, fun f hf => ?_, by simp [SetupQuery.makes, Mysql.Has]⟩
              cases f with
              | selected => exact ⟨_, rfl, rfl⟩
              | connected => rfl
              | granted | own | database | table => exact hf
              | prepared q =>
                  obtain ⟨s', hs', hq⟩ := hf
                  rw [hs, Option.some.injEq] at hs'
                  exact ⟨_, rfl, hs' ▸ hq⟩
            · contradiction
        | createSentences | createSettings | createUserData =>
            simp only [SetupQuery.makes, List.mem_singleton, forall_eq]
            exact createTable_spec h

/-- So does preparing one, which changes nothing on the server. -/
theorem prepare_spec {m m' : Mysql} {q : PreparedQuery} (h : m.prepare q = .ok m') :
    m'.catalog = m.catalog ∧ m.Extends m' ∧ m'.Has (.prepared q) := by
  unfold Mysql.prepare at h
  split at h
  · contradiction
  · next s hs =>
      split at h
      · contradiction
      · split at h
        · contradiction
        · split at h
          · contradiction
          · split at h
            · contradiction
            · cases h
              refine ⟨rfl, fun f hf => ?_, _, rfl, by simp⟩
              cases f with
              | selected =>
                  obtain ⟨s', hs', hsel⟩ := hf
                  rw [hs, Option.some.injEq] at hs'
                  exact ⟨_, rfl, hs' ▸ hsel⟩
              | connected => rfl
              | granted | own | database | table => exact hf
              | prepared q' =>
                  obtain ⟨s', hs', hq⟩ := hf
                  rw [hs, Option.some.injEq] at hs'
                  subst hs'
                  exact ⟨_, rfl, List.mem_append_left _ hq⟩

end LearnWords
