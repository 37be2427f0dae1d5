import Mathlib.Algebra.Ring.Int.Defs
import Mathlib.Data.Int.Notation
import Mathlib.Data.List.Basic
import Mathlib.Data.List.Find
import Mathlib.Data.List.Induction
import Mathlib.Data.List.Pairwise
import Mathlib.Order.Lattice
import Protek.Foundation.KeyedTable

/-! # Tables of a SQL database

A row has a rowid and one value for each column. `INSERT OR IGNORE` leaves out a row that
breaks a constraint, `INSERT OR REPLACE` deletes the rows that it collides with. The
values are named, as in `INSERT INTO t (columns) VALUES (…)`.
-/
namespace Foundation.SqlTable

inductive SqlValue
  | null
  | int (n : ℤ)
  | real (literal : String)
  | text (s : String)
  deriving DecidableEq, Repr

inductive Affinity
  | integer
  | text
  deriving DecidableEq, Repr

structure Column where
  name : String
  affinity : Affinity
  notNull : Bool
  default : SqlValue

abbrev Members := List (String × SqlValue)

/-- `idColumn` names an `INTEGER PRIMARY KEY AUTOINCREMENT`; without one the rowid is hidden. -/
structure TableDef where
  idColumn : Option String
  columns : List Column
  uniques : List (List String)
  check : Members → Bool

structure Row where
  rowid : ℤ
  cells : Members
  deriving DecidableEq, Repr

/-- `seq` is the largest rowid that `AUTOINCREMENT` has seen. -/
structure Table where
  rows : List Row
  seq : ℤ
  deriving DecidableEq, Repr

/-- `store` is the conversion to a column's affinity; `spareRowid` is tried once the largest rowid is taken. -/
structure Engine where
  store : Affinity → SqlValue → SqlValue
  store_null : ∀ a, store a .null = .null
  store_int : ∀ n, store .integer (.int n) = .int n
  store_text : ∀ s, store .text (.text s) = .text s
  spareRowid : List ℤ → Option ℤ
  spareRowid_not_mem : ∀ ids n, spareRowid ids = some n → n ∉ ids

inductive OnConflict
  | ignore
  | replace
  deriving DecidableEq, Repr

/-- Names of columns, which differ in more than their case. -/
def sameName (a b : String) : Bool := a.toList.map Char.toLower = b.toList.map Char.toLower

def cellOf (cells : Members) (name : String) : SqlValue := ((cells.find? (fun p => p.1 = name)).map Prod.snd).getD .null

def maxRowid : ℤ := 2 ^ 63 - 1

def lastRowid : List Row → Option ℤ
  | [] => none
  | r :: rows => some ((lastRowid rows).elim r.rowid (max r.rowid))

section
variable (E : Engine) (d : TableDef)

/-- What `SELECT *` shows of a row. -/
def selectRow (r : Row) : Members := d.idColumn.toList.map (fun c => (c,.int r.rowid)) ++ r.cells

def isRowidName (name : String) : Bool := (d.idColumn.toList ++ ["rowid","oid","_rowid_"]).any (sameName name)

def isColumn (name : String) : Bool := d.columns.any (fun c => sameName c.name name) || isRowidName d name

/-- The rowid of a row that names none, `none` where the table is full. -/
def newRowid (t : Table) : Option ℤ :=
  let next := (lastRowid t.rows).elim (some 1) (fun m => if m < maxRowid then some (m + 1) else none)
  if d.idColumn.isSome then (if t.seq < maxRowid then next.map (fun n => max n (t.seq + 1)) else none)
  else next.orElse (fun _ => E.spareRowid (t.rows.map Row.rowid))

/-- The rowid for the named values, `none` where the statement is refused: a column is unknown, or the rowid is no integer. -/
def targetRowid (t : Table) (members : Members) : Option ℤ :=
  if members = [] ∨ members.any (fun p => !isColumn d p.1) then none
  else
    match (members.filter (fun p => isRowidName d p.1)).getLast? with
    | none => newRowid E d t
    | some p =>
      match E.store .integer p.2 with
      | .null => newRowid E d t
      | .int n => some n
      | _ => none

/-- The value of a column; under `OR REPLACE` a missing value that may not be NULL is the default. -/
def cellFor (mode : OnConflict) (members : Members) (c : Column) : SqlValue :=
  let v := (members.find? (fun p => sameName c.name p.1)).elim c.default (fun p => E.store c.affinity p.2)
  if mode = .replace ∧ c.notNull ∧ v = .null then c.default else v

def rowFor (mode : OnConflict) (members : Members) (rowid : ℤ) : Row :=
  ⟨rowid,d.columns.map (fun c => (c.name,cellFor E mode members c))⟩

def admissible (cells : Members) : Bool := d.columns.all (fun c => !(c.notNull && cellOf cells c.name = .null)) && d.check cells

/-- Two rows that agree in all columns of a key, where NULL agrees with nothing. -/
def sharesKey (a b : Members) : Bool :=
  d.uniques.any (fun key => key.all (fun c => cellOf a c = cellOf b c && cellOf a c ≠ .null))

def collides (r s : Row) : Bool := r.rowid = s.rowid || sharesKey d r.cells s.cells

def bump (t : Table) (rowid : ℤ) : Table := if d.idColumn.isSome then { t with seq := max t.seq rowid } else t

/-- `INSERT OR IGNORE` and `INSERT OR REPLACE`, with the count of the rows they have inserted. -/
def insert (mode : OnConflict) (t : Table) (members : Members) : Table × Bool :=
  match targetRowid E d t members with
  | none => (t,false)
  | some rowid =>
    let r := rowFor E d mode members rowid
    match mode with
    | .ignore =>
      if !admissible d r.cells || t.rows.any (collides d r) then (bump d t rowid,false)
      else ({ bump d t rowid with rows := t.rows ++ [r] },true)
    | .replace =>
      if !admissible d r.cells then (t,false)
      else ({ bump d t rowid with rows := t.rows.filter (fun s => !collides d r s) ++ [r] },true)

end

/-- The row that an insert adds. -/
structure Adds (E : Engine) (d : TableDef) (mode : OnConflict) (t : Table) (members : Members) (r : Row) : Prop where
  target : ∃ rowid, targetRowid E d t members = some rowid ∧ r = rowFor E d mode members rowid
  admissible : admissible d r.cells = true

section
variable {E : Engine} {d : TableDef} {t : Table} {members : Members}

@[simp] theorem bump_rows (d : TableDef) (t : Table) (rowid : ℤ) : (bump d t rowid).rows = t.rows := by
  unfold bump
  split <;> rfl

/-- An insert that gives way adds its row at the end, or leaves the rows as they are. -/
theorem insert_ignore_cases (E : Engine) (d : TableDef) (t : Table) (members : Members) :
    ((insert E d .ignore t members).1.rows = t.rows ∧ (insert E d .ignore t members).2 = false) ∨
    ∃ r, Adds E d .ignore t members r ∧ (∀ s ∈ t.rows, collides d r s = false) ∧
      (insert E d .ignore t members).1.rows = t.rows ++ [r] ∧ (insert E d .ignore t members).2 = true := by
  unfold insert
  cases htarget : targetRowid E d t members with
  | none => exact Or.inl ⟨rfl,rfl⟩
  | some rowid =>
    dsimp only
    split
    · exact Or.inl ⟨bump_rows d t rowid,rfl⟩
    · rename_i hfree
      rw [Bool.or_eq_true, not_or] at hfree
      refine Or.inr ⟨_,⟨⟨rowid,htarget,rfl⟩,by simpa using hfree.1⟩,?_,rfl,rfl⟩
      simpa using hfree.2

/-- The names of the columns tell them apart. -/
structure Regular (d : TableDef) : Prop where
  names : (d.columns.map Column.name).Pairwise (fun a b => sameName a b = false)
  notRowid : ∀ c ∈ d.columns, isRowidName d c.name = false
  nonempty : d.columns ≠ []

/-- Every column has a value of its own affinity, and the constraints hold. -/
structure WellFormed (E : Engine) (d : TableDef) (rows : List Row) : Prop where
  names : ∀ r ∈ rows, r.cells.map Prod.fst = d.columns.map Column.name
  stored : ∀ r ∈ rows, ∀ c ∈ d.columns, E.store c.affinity (cellOf r.cells c.name) = cellOf r.cells c.name
  admissible : ∀ r ∈ rows, admissible d r.cells = true
  distinct : rows.Pairwise (fun r s => collides d r s = false)
  room : (rows.length : ℤ) < maxRowid

theorem sameName_self (a : String) : sameName a a = true := by simp [sameName]

theorem sameName_symm (a b : String) : sameName a b = sameName b a := by
  unfold sameName
  exact decide_eq_decide.mpr eq_comm

theorem Regular.sameName_iff (hreg : Regular d) {a b : String} (ha : a ∈ d.columns.map Column.name)
    (hb : b ∈ d.columns.map Column.name) : sameName a b = true ↔ a = b := by
  constructor
  · intro hsame
    by_contra hne
    have : Std.Symm (fun x y : String => sameName x y = false) := ⟨fun x y h => (sameName_symm y x).trans h⟩
    have hdiff := hreg.names.forall ha hb hne
    rw [hdiff] at hsame
    cases hsame
  · rintro rfl
    exact sameName_self a

theorem Regular.nodup (hreg : Regular d) : (d.columns.map Column.name).Nodup := by
  refine hreg.names.imp (fun {a b} h => ?_)
  rintro rfl
  rw [sameName_self] at h
  cases h

/-- Cells are given by their values by name. -/
theorem map_cellOf {cells : Members} {columns : List Column} (hnames : cells.map Prod.fst = columns.map Column.name)
    (hnodup : (cells.map Prod.fst).Nodup) : columns.map (fun c => (c.name,cellOf cells c.name)) = cells := by
  have hself : (cells.map Prod.fst).map (fun name => (name,cellOf cells name)) = cells := by
    rw [List.map_map]
    refine (List.map_congr_left (fun p hp => ?_)).trans (List.map_id _)
    change (p.1,cellOf cells p.1) = p
    rw [cellOf, KeyedTable.find_of_mem hnodup hp]
    rfl
  rw [hnames, List.map_map] at hself
  exact hself

theorem find_selectRow (hreg : Regular d) {r : Row} (hnames : r.cells.map Prod.fst = d.columns.map Column.name) {c : Column}
    (hc : c ∈ d.columns) : (selectRow d r).find? (fun p => sameName c.name p.1) = some (c.name,cellOf r.cells c.name) := by
  have hmem : c.name ∈ d.columns.map Column.name := List.mem_map_of_mem hc
  have hid : (d.idColumn.toList.map (fun i => (i,SqlValue.int r.rowid))).find? (fun p => sameName c.name p.1) = none := by
    rw [List.find?_eq_none]
    rintro p hp hsame
    obtain ⟨i,hi,rfl⟩ := List.mem_map.mp hp
    have hrow := hreg.notRowid c hc
    rw [isRowidName, List.any_append, Bool.or_eq_false_iff, List.any_eq_false] at hrow
    exact hrow.1 i hi hsame
  have hcells : r.cells.find? (fun p => sameName c.name p.1) = r.cells.find? (fun p => p.1 = c.name) := by
    refine List.find?_congr (fun p hp => ?_)
    have hp' : p.1 ∈ d.columns.map Column.name := hnames ▸ List.mem_map_of_mem hp
    rw [Bool.eq_iff_iff, hreg.sameName_iff hmem hp', decide_eq_true_eq]
    exact eq_comm
  have hnodup : (r.cells.map Prod.fst).Nodup := hnames ▸ hreg.nodup
  obtain ⟨p,hp,hname⟩ := List.mem_map.mp (hnames ▸ hmem)
  have hfind := KeyedTable.find_of_mem hnodup hp
  rw [hname] at hfind
  rw [selectRow, List.find?_append, hid, Option.none_or, hcells, cellOf, hfind, ← hname]
  rfl

/-- A selected row is built again from its values. -/
theorem rowFor_selectRow (hreg : Regular d) {rows : List Row} (h : WellFormed E d rows) {r : Row} (hr : r ∈ rows)
    (mode : OnConflict) (rowid : ℤ) : rowFor E d mode (selectRow d r) rowid = ⟨rowid,r.cells⟩ := by
  have hnames := h.names r hr
  have hcell : ∀ c ∈ d.columns, cellFor E mode (selectRow d r) c = cellOf r.cells c.name := by
    intro c hc
    have hfits := List.all_eq_true.mp (Bool.and_eq_true _ _ ▸ h.admissible r hr).1 c hc
    unfold cellFor
    simp only [find_selectRow hreg hnames hc, Option.elim_some, h.stored r hr c hc]
    refine if_neg (fun hnull => ?_)
    rw [hnull.2.1, hnull.2.2] at hfits
    cases hfits
  rw [rowFor]
  refine congrArg (Row.mk rowid) ?_
  refine (List.map_congr_left (fun c hc => ?_)).trans (map_cellOf hnames (hnames ▸ hreg.nodup))
  rw [hcell c hc]

theorem isColumn_selectRow {r : Row} (hnames : r.cells.map Prod.fst = d.columns.map Column.name) :
    ∀ p ∈ selectRow d r, isColumn d p.1 = true := by
  intro p hp
  unfold isColumn
  rcases List.mem_append.mp hp with hp | hp
  · obtain ⟨i,hi,rfl⟩ := List.mem_map.mp hp
    have hrow : isRowidName d i = true := List.any_eq_true.mpr ⟨i,List.mem_append_left _ hi,sameName_self i⟩
    rw [hrow, Bool.or_true]
  · have hmem : p.1 ∈ d.columns.map Column.name := hnames ▸ List.mem_map_of_mem hp
    obtain ⟨c,hc,hname⟩ := List.mem_map.mp hmem
    have hcol : d.columns.any (fun c => sameName c.name p.1) = true :=
      List.any_eq_true.mpr ⟨c,hc,by rw [hname, sameName_self]⟩
    rw [hcol, Bool.true_or]

theorem filter_isRowidName (hreg : Regular d) {r : Row} (hnames : r.cells.map Prod.fst = d.columns.map Column.name) :
    (selectRow d r).filter (fun p => isRowidName d p.1) = d.idColumn.toList.map (fun c => (c,.int r.rowid)) := by
  have hids : (d.idColumn.toList.map (fun c => (c,SqlValue.int r.rowid))).filter (fun p => isRowidName d p.1) =
      d.idColumn.toList.map (fun c => (c,.int r.rowid)) := by
    refine List.filter_eq_self.mpr (fun p hp => ?_)
    obtain ⟨i,hi,rfl⟩ := List.mem_map.mp hp
    exact List.any_eq_true.mpr ⟨i,List.mem_append_left _ hi,sameName_self i⟩
  have hcells : r.cells.filter (fun p => isRowidName d p.1) = [] := by
    refine List.filter_eq_nil_iff.mpr (fun p hp => ?_)
    have hmem : p.1 ∈ d.columns.map Column.name := hnames ▸ List.mem_map_of_mem hp
    obtain ⟨c,hc,hname⟩ := List.mem_map.mp hmem
    rw [← hname, hreg.notRowid c hc]
    exact Bool.false_ne_true
  rw [selectRow, List.filter_append, hids, hcells, List.append_nil]

theorem targetRowid_selectRow (hreg : Regular d) {r : Row} (hnames : r.cells.map Prod.fst = d.columns.map Column.name) :
    targetRowid E d t (selectRow d r) = if d.idColumn.isSome then some r.rowid else newRowid E d t := by
  have hne : selectRow d r ≠ [] := by
    intro hnil
    have hcells : r.cells = [] := (List.append_eq_nil_iff.mp hnil).2
    rw [hcells, List.map_nil] at hnames
    exact hreg.nonempty (List.map_eq_nil_iff.mp hnames.symm)
  have hknown : (selectRow d r).any (fun p => !isColumn d p.1) = false := by
    refine List.any_eq_false.mpr (fun p hp => ?_)
    rw [isColumn_selectRow hnames p hp]
    exact Bool.false_ne_true
  unfold targetRowid
  rw [if_neg (by simp [hne, hknown]), filter_isRowidName hreg hnames]
  cases hid : d.idColumn with
  | none => rfl
  | some c =>
    simp only [Option.toList_some, List.map_cons, List.map_nil, List.getLast?_singleton, E.store_int]
    rfl

def insertAll (E : Engine) (d : TableDef) (mode : OnConflict) (t : Table) (l : List Members) : Table :=
  l.foldl (fun t members => (insert E d mode t members).1) t

/-- Rows that are added are made of the values of one of the inserts, whatever the table was then. -/
def Made (E : Engine) (d : TableDef) (mode : OnConflict) (l : List Members) (r : Row) : Prop :=
  ∃ t, ∃ members ∈ l, Adds E d mode t members r

theorem Made.mono {mode : OnConflict} {l l' : List Members} {r : Row} (h : Made E d mode l r) (hsub : ∀ m ∈ l, m ∈ l') :
    Made E d mode l' r := by
  obtain ⟨t,members,hm,hadds⟩ := h
  exact ⟨t,members,hsub _ hm,hadds⟩

/-- Inserts that give way leave the rows they find, and add theirs behind. -/
theorem insertAll_ignore (E : Engine) (d : TableDef) (t : Table) (l : List Members) :
    ∃ added, (insertAll E d .ignore t l).rows = t.rows ++ added ∧ ∀ r ∈ added, Made E d .ignore l r := by
  induction l generalizing t with
  | nil => exact ⟨[],(List.append_nil _).symm,fun r hr => absurd hr List.not_mem_nil⟩
  | cons members l ih =>
    obtain ⟨added,hrows,hmade⟩ := ih (insert E d .ignore t members).1
    have hmade' : ∀ r ∈ added, Made E d .ignore (members :: l) r :=
      fun r hr => (hmade r hr).mono (fun m hm => List.mem_cons_of_mem _ hm)
    rw [insertAll, List.foldl_cons]
    rcases insert_ignore_cases E d t members with ⟨hsame,-⟩ | ⟨r,hadds,-,hadded,-⟩
    · exact ⟨added,by rw [← hsame]; exact hrows,hmade'⟩
    · refine ⟨r :: added,?_,fun s hs => ?_⟩
      · rw [hadded, List.append_assoc] at hrows
        exact hrows
      · rcases List.mem_cons.mp hs with rfl | hs
        · exact ⟨t,members,List.mem_cons_self,hadds⟩
        · exact hmade' s hs

/-! ## A copy of a table -/

theorem le_lastRowid {rows : List Row} {m : ℤ} (h : lastRowid rows = some m) : ∀ r ∈ rows, r.rowid ≤ m := by
  induction rows generalizing m with
  | nil => exact fun r hr => absurd hr List.not_mem_nil
  | cons r rows ih =>
    rw [lastRowid, Option.some_inj] at h
    intro s hs
    cases hlast : lastRowid rows with
    | none =>
      rw [hlast, Option.elim_none] at h
      rcases List.mem_cons.mp hs with rfl | hs
      · exact h.le
      · cases rows with
        | nil => exact absurd hs List.not_mem_nil
        | cons u us => cases hlast
    | some k =>
      rw [hlast, Option.elim_some] at h
      rcases List.mem_cons.mp hs with rfl | hs
      · exact h ▸ le_max_left ..
      · exact (ih hlast s hs).trans (h ▸ le_max_right ..)

theorem lastRowid_mem {rows : List Row} {m : ℤ} (h : lastRowid rows = some m) : ∃ r ∈ rows, r.rowid = m := by
  induction rows generalizing m with
  | nil => cases h
  | cons r rows ih =>
    rw [lastRowid, Option.some_inj] at h
    cases hlast : lastRowid rows with
    | none =>
      rw [hlast, Option.elim_none] at h
      exact ⟨r,List.mem_cons_self,h⟩
    | some k =>
      rw [hlast, Option.elim_some] at h
      obtain ⟨s,hs,hk⟩ := ih hlast
      rcases le_total r.rowid k with hle | hle
      · exact ⟨s,List.mem_cons_of_mem _ hs,by rw [hk, ← h, max_eq_right hle]⟩
      · exact ⟨r,List.mem_cons_self,by rw [← h, max_eq_left hle]⟩

/-- A hidden rowid is the next one, as long as there is room. -/
theorem newRowid_hidden (hid : d.idColumn = none) {k : ℤ} (hk : 0 ≤ k) (hroom : k < maxRowid) (hle : ∀ s ∈ t.rows, s.rowid ≤ k) :
    ∃ n, newRowid E d t = some n ∧ n ≤ k + 1 ∧ ∀ s ∈ t.rows, s.rowid < n := by
  unfold newRowid
  rw [hid]
  cases hlast : lastRowid t.rows with
  | none =>
    refine ⟨1,rfl,by omega,fun s hs => ?_⟩
    cases hrows : t.rows with
    | nil =>
      rw [hrows] at hs
      exact absurd hs List.not_mem_nil
    | cons u us =>
      rw [hrows] at hlast
      cases hlast
  | some m =>
    obtain ⟨s,hs,rfl⟩ := lastRowid_mem hlast
    have hm := hle s hs
    have hlt : s.rowid < maxRowid := by omega
    refine ⟨s.rowid + 1,?_,by omega,fun u hu => ?_⟩
    · rw [Option.elim_some, if_pos hlt]
      rfl
    · have := le_lastRowid hlast u hu
      omega

theorem selectRow_inj {r s : Row} (h : selectRow d r = selectRow d s) :
    r.cells = s.cells ∧ (d.idColumn.isSome = true → r.rowid = s.rowid) := by
  unfold selectRow at h
  cases hid : d.idColumn with
  | none =>
    rw [hid] at h
    exact ⟨h,fun hsome => by cases hsome⟩
  | some c =>
    rw [hid] at h
    obtain ⟨hhead,htail⟩ := List.cons.inj h
    exact ⟨htail,fun _ => SqlValue.int.inj (Prod.mk.inj hhead).2⟩

theorem selectRow_mk (r : Row) {n : ℤ} (h : d.idColumn.isSome = true → n = r.rowid) : selectRow d ⟨n,r.cells⟩ = selectRow d r := by
  unfold selectRow
  cases hid : d.idColumn with
  | none => rfl
  | some c => rw [h (by rw [hid]; rfl)]

theorem sharesKey_symm (a b : Members) : sharesKey d a b = sharesKey d b a := by
  unfold sharesKey
  refine congrArg (fun p => d.uniques.any p) (funext fun key => ?_)
  refine congrArg (fun p => key.all p) (funext fun c => ?_)
  by_cases heq : cellOf a c = cellOf b c
  · rw [heq]
  · simp [heq, Ne.symm heq]

theorem WellFormed.init {init : List Row} {r : Row} (h : WellFormed E d (init ++ [r])) : WellFormed E d init where
  names s hs := h.names s (List.mem_append_left _ hs)
  stored s hs := h.stored s (List.mem_append_left _ hs)
  admissible s hs := h.admissible s (List.mem_append_left _ hs)
  distinct := h.distinct.sublist (List.sublist_append_left _ _)
  room := by
    have hroom := h.room
    rw [List.length_append, List.length_singleton] at hroom
    push_cast at hroom
    omega

/-- The table shows the given rows; hidden rowids are counted up. -/
structure Copied (d : TableDef) (t : Table) (rows : List Row) : Prop where
  selected : t.rows.map (selectRow d) = rows.map (selectRow d)
  bounded : d.idColumn = none → ∀ s ∈ t.rows, s.rowid ≤ rows.length

/-- A selected row collides with none of a copy of the rows before it. -/
theorem Copied.snoc (hreg : Regular d) {init : List Row} {r : Row} (h : WellFormed E d (init ++ [r])) (hcopy : Copied d t init) :
    Copied d (insert E d .replace t (selectRow d r)).1 (init ++ [r]) := by
  have hr : r ∈ init ++ [r] := List.mem_append_right _ (List.mem_singleton_self r)
  have hroom := h.room
  rw [List.length_append, List.length_singleton] at hroom
  push_cast at hroom
  obtain ⟨n,htarget,hid,hbound,hfresh⟩ : ∃ n, targetRowid E d t (selectRow d r) = some n ∧
      (d.idColumn.isSome = true → n = r.rowid) ∧ (d.idColumn = none → n ≤ init.length + 1) ∧
      (d.idColumn = none → ∀ s ∈ t.rows, s.rowid ≠ n) := by
    rw [targetRowid_selectRow hreg (h.names r hr)]
    cases hcol : d.idColumn with
    | some c => exact ⟨r.rowid,rfl,fun _ => rfl,fun hnone => (by cases hnone),fun hnone => (by cases hnone)⟩
    | none =>
      obtain ⟨n,hn,hle,hlt⟩ := newRowid_hidden (E := E) hcol (by omega) (by omega) (hcopy.bounded hcol)
      exact ⟨n,hn,fun hsome => (by cases hsome),fun _ => hle,fun _ s hs => (hlt s hs).ne⟩
  have hrow : rowFor E d .replace (selectRow d r) n = ⟨n,r.cells⟩ := rowFor_selectRow hreg h hr .replace n
  have hapart : ∀ s ∈ t.rows, collides d ⟨n,r.cells⟩ s = false := by
    intro s hs
    have hmem : selectRow d s ∈ init.map (selectRow d) := hcopy.selected ▸ List.mem_map_of_mem hs
    obtain ⟨p,hp,hselect⟩ := List.mem_map.mp hmem
    obtain ⟨hcells,hrowid⟩ := selectRow_inj hselect
    have hpair : collides d p r = false := (List.pairwise_append.mp h.distinct).2.2 p hp r (List.mem_singleton_self r)
    obtain ⟨hne,hkey⟩ := Bool.or_eq_false_iff.mp hpair
    refine Bool.or_eq_false_iff.mpr ⟨decide_eq_false ?_,?_⟩
    · change n ≠ s.rowid
      cases hcol : d.idColumn with
      | none => exact (hfresh hcol s hs).symm
      | some c =>
        have hsome : d.idColumn.isSome = true := by rw [hcol]; rfl
        rw [hid hsome, ← hrowid hsome]
        exact Ne.symm (of_decide_eq_false hne)
    · change sharesKey d r.cells s.cells = false
      rw [← hcells, sharesKey_symm, hkey]
  have hinsert : (insert E d .replace t (selectRow d r)).1.rows = t.rows ++ [⟨n,r.cells⟩] := by
    unfold insert
    rw [htarget]
    dsimp only
    rw [hrow, if_neg (by simp [h.admissible r hr])]
    dsimp only
    rw [List.filter_eq_self.mpr (fun s hs => by rw [hapart s hs]; rfl)]
  constructor
  · rw [hinsert, List.map_append, hcopy.selected, List.map_append, List.map_singleton, List.map_singleton, selectRow_mk r hid]
  · intro hcol s hs
    rw [hinsert] at hs
    rw [List.length_append, List.length_singleton]
    push_cast
    rcases List.mem_append.mp hs with hs | hs
    · have := hcopy.bounded hcol s hs
      omega
    · rw [List.mem_singleton.mp hs]
      exact hbound hcol

/-- What a well-formed table shows is copied into an empty one. -/
theorem insertAll_select (hreg : Regular d) {rows : List Row} (h : WellFormed E d rows) {t : Table} (ht : t.rows = []) :
    Copied d (insertAll E d .replace t (rows.map (selectRow d))) rows := by
  induction rows using List.reverseRecOn with
  | nil =>
    change Copied d t []
    exact ⟨by rw [ht],fun _ s hs => by rw [ht] at hs; exact absurd hs List.not_mem_nil⟩
  | append_singleton init r ih =>
    rw [insertAll, List.map_append, List.foldl_append]
    exact (ih h.init).snoc hreg h

end

end Foundation.SqlTable
