import Mathlib.Data.List.Nodup
import SyntaxView.Toml.Document

/-!
# The keys of a TOML document

No table of a document has a key twice, at whatever depth it stands.  TOML forbids it, and the
reader keeps to that without looking for it: a line either adds a key where there is none of its
name or changes the value of the one that is there.

`Entries.Distinct` is what every line preserves (`Draft.Distinct.readAssignment`,
`Draft.Distinct.readHeader`), so it holds of every document that is read (`distinct_of_read?`).  In
such a table a key stands for its value: `Entries.Distinct.find?_eq_some_iff` says that looking a
name up finds the one entry of that name.  The order of the entries then does not matter for what is
found: a rearranged document (`Entries.Rearranged`) has the same data under the same names.
-/

namespace SyntaxView.Toml

open Text (Reader)

/-- The names of the keys, in order. -/
def Entries.names (es : Entries) : List String := es.map (·.1.name)

/-- No table in the value has a key twice. -/
inductive Value.Distinct : Value → Prop
  | text (value : String) : Distinct (.text value)
  | integer (value : Int) : Distinct (.integer value)
  | float (value : Binary64) : Distinct (.float value)
  | boolean (value : Bool) : Distinct (.boolean value)
  | dateTime : Distinct .dateTime
  | array {items : List (Span × Value)} (each : ∀ item ∈ items, Distinct item.2) :
    Distinct (.array items)
  | table {origin : TableOrigin} {entries : Entries} (names : entries.names.Nodup)
    (each : ∀ entry ∈ entries, Distinct entry.2.2) : Distinct (.table origin entries)
  | tables {elements : List (Span × Entries)} (names : ∀ table ∈ elements, table.2.names.Nodup)
    (each : ∀ table ∈ elements, ∀ entry ∈ table.2, Distinct entry.2.2) :
    Distinct (.tables elements)

/-- Neither the table itself nor a table in its values has a key twice. -/
structure Entries.Distinct (es : Entries) : Prop where
  names : es.names.Nodup
  each : ∀ entry ∈ es, entry.2.2.Distinct

namespace Entries

variable {es es' : Entries} {name : String} {key : Key} {item : Item}

/-! ### Names and lookups -/

@[simp] theorem names_cons (entry : Key × Item) (es : Entries) :
    names (entry :: es) = entry.1.name :: es.names := rfl

@[simp] theorem names_append (es es' : Entries) : names (es ++ es') = es.names ++ es'.names :=
  List.map_append

theorem mem_names_of_mem {entry : Key × Item} (h : entry ∈ es) : entry.1.name ∈ es.names :=
  List.mem_map_of_mem h

theorem find?_eq_none : es.find? name = none ↔ name ∉ es.names := by
  unfold find? names
  rw [Option.map_eq_none_iff, List.find?_eq_none, List.mem_map]
  simp only [beq_iff_eq, not_exists, not_and]

theorem exists_mem_of_find? (h : es.find? name = some item) :
    ∃ key : Key, key.name = name ∧ (key, item) ∈ es := by
  obtain ⟨⟨key, item'⟩, hfind, rfl⟩ := Option.map_eq_some_iff.1 h
  exact ⟨key, by simpa using List.find?_some hfind, List.mem_of_find?_eq_some hfind⟩

theorem find?_cons (entry : Key × Item) (es : Entries) (name : String) :
    find? (entry :: es) name = if entry.1.name = name then some entry.2 else es.find? name := by
  by_cases h : entry.1.name = name <;> simp [find?, h]

theorem names_replace (es : Entries) (name : String) (item : Item) :
    (es.replace name item).names = es.names := by
  unfold names replace
  rw [List.map_map]
  refine List.map_congr_left fun entry _ => ?_
  show (if entry.1.name == name then (entry.1, item) else entry).1.name = entry.1.name
  split <;> rfl

theorem notMem_names_erase (es : Entries) (name : String) : name ∉ (es.erase name).names := by
  simp [names, erase]

namespace Distinct

theorem nil : Distinct [] := ⟨List.nodup_nil, by simp⟩

/-- Without a key twice, a lookup finds the one entry of a name. -/
theorem find?_eq_some_iff (h : es.Distinct) :
    es.find? name = some item ↔ ∃ key : Key, key.name = name ∧ (key, item) ∈ es := by
  refine ⟨exists_mem_of_find?, ?_⟩
  rintro ⟨key, rfl, hmem⟩
  cases hfind : es.find? key.name with
  | none => exact absurd (mem_names_of_mem hmem) (find?_eq_none.1 hfind)
  | some item' =>
    obtain ⟨key', hname, hmem'⟩ := exists_mem_of_find? hfind
    have hsame := List.inj_on_of_nodup_map h.names hmem' hmem hname
    rw [(Prod.mk.inj hsame).2]

theorem value (h : es.Distinct) (hfind : es.find? name = some item) : item.2.Distinct := by
  obtain ⟨key, -, hmem⟩ := exists_mem_of_find? hfind
  exact h.each _ hmem

/-! ### Changes of a table -/

theorem concat (h : es.Distinct) (hkey : es.find? key.name = none) (hitem : item.2.Distinct) :
    Distinct (es ++ [(key, item)]) := by
  constructor
  · have hnew := find?_eq_none.1 hkey
    rw [names_append]
    exact h.names.append (List.nodup_singleton _) (List.disjoint_singleton.2 hnew)
  · exact List.forall_mem_append.2 ⟨h.each, List.forall_mem_singleton.2 hitem⟩

theorem replace (h : es.Distinct) (name : String) (hitem : item.2.Distinct) :
    (es.replace name item).Distinct := by
  constructor
  · rw [names_replace]
    exact h.names
  · intro entry hentry
    obtain ⟨old, hold, rfl⟩ := List.mem_map.1 hentry
    split
    · exact hitem
    · exact h.each old hold

theorem erase (h : es.Distinct) (name : String) : (es.erase name).Distinct :=
  ⟨h.names.sublist (List.filter_sublist.map _),
    fun entry hentry => h.each entry (List.mem_filter.1 hentry).1⟩

end Distinct

end Entries

/-! ### Tables in tables -/

namespace Value.Distinct

variable {origin : TableOrigin} {es inner : Entries} {elements : List (Span × Entries)}
  {span : Span}

theorem table_iff : Value.Distinct (.table origin es) ↔ es.Distinct := by
  constructor
  · rintro ⟨⟩
    exact ⟨‹_›, ‹_›⟩
  · intro h
    exact .table h.names h.each

theorem tables_iff : Value.Distinct (.tables elements) ↔ ∀ table ∈ elements, table.2.Distinct := by
  constructor
  · rintro ⟨⟩ table htable
    exact ⟨‹∀ table ∈ elements, table.2.names.Nodup› table htable,
      ‹∀ table ∈ elements, ∀ entry ∈ table.2, Value.Distinct entry.2.2› table htable⟩
  · intro h
    exact .tables (fun table htable => (h table htable).names)
      (fun table htable => (h table htable).each)

/-- Another last table of several. -/
theorem tables_concat (h : Value.Distinct (.tables elements)) (hinner : inner.Distinct) :
    Value.Distinct (.tables (elements ++ [(span, inner)])) := by
  rw [tables_iff] at h ⊢
  exact List.forall_mem_append.2 ⟨h, List.forall_mem_singleton.2 hinner⟩

theorem tables_dropLast (h : Value.Distinct (.tables elements)) :
    Value.Distinct (.tables elements.dropLast) :=
  tables_iff.2 fun table htable => tables_iff.1 h table (List.dropLast_subset _ htable)

theorem last (h : Value.Distinct (.tables elements))
    (hlast : elements.getLast? = some (span, inner)) : inner.Distinct :=
  tables_iff.1 h _ (List.mem_of_getLast? hlast)

end Value.Distinct

namespace Entries.Distinct

open Value.Distinct

variable {es es' : Entries} {key : Key} {item : Item} {span : Span}

theorem assign (h : es.Distinct) (hitem : item.2.Distinct) {path : List Key}
    (hassign : es.assign path key item = some es') : es'.Distinct := by
  induction path generalizing es es' with
  | nil =>
    unfold Entries.assign at hassign
    split at hassign
    · cases hassign
    · rename_i hnone
      cases hassign
      exact h.concat (by simpa using hnone) hitem
  | cons k path ih =>
    unfold Entries.assign at hassign
    split at hassign
    · rename_i hfind
      obtain ⟨inner, hinner, hes⟩ := Option.bind_eq_some_iff.1 hassign
      cases hes
      exact h.concat hfind (table_iff.2 (ih .nil hinner))
    · rename_i hfind
      obtain ⟨inner, hinner, hes⟩ := Option.bind_eq_some_iff.1 hassign
      cases hes
      exact h.replace _ (table_iff.2 (ih (table_iff.1 (h.value hfind)) hinner))
    · rename_i hfind
      split at hassign
      · cases hassign
      · obtain ⟨inner, hinner, hes⟩ := Option.bind_eq_some_iff.1 hassign
        cases hes
        exact h.replace _ (table_iff.2 (ih (table_iff.1 (h.value hfind)) hinner))
    · rename_i hfind
      split at hassign
      · rename_i hlast
        obtain ⟨inner, hinner, hes⟩ := Option.bind_eq_some_iff.1 hassign
        cases hes
        have htables := h.value hfind
        exact h.replace _ (htables.tables_dropLast.tables_concat (ih (htables.last hlast) hinner))
      · cases hassign
    · cases hassign

theorem changeAt {change : Entries → Option Entries}
    (hchange : ∀ {es es' : Entries}, es.Distinct → change es = some es' → es'.Distinct)
    (h : es.Distinct) {path : List Key} (hes : es.changeAt path change = some es') :
    es'.Distinct := by
  induction path generalizing es es' with
  | nil => exact hchange h hes
  | cons k path ih =>
    unfold Entries.changeAt at hes
    split at hes
    · rename_i hfind
      obtain ⟨inner, hinner, hes⟩ := Option.bind_eq_some_iff.1 hes
      cases hes
      exact h.concat hfind (table_iff.2 (ih .nil hinner))
    · cases hes
    · rename_i hfind
      obtain ⟨inner, hinner, hes⟩ := Option.bind_eq_some_iff.1 hes
      cases hes
      exact h.replace _ (table_iff.2 (ih (table_iff.1 (h.value hfind)) hinner))
    · rename_i hfind
      split at hes
      · cases hes
      · rename_i hlast
        obtain ⟨inner, hinner, hes⟩ := Option.bind_eq_some_iff.1 hes
        cases hes
        have htables := h.value hfind
        exact h.replace _ (htables.tables_dropLast.tables_concat (ih (htables.last hlast) hinner))
    · cases hes

theorem openTable (h : es.Distinct) (hes : es.openTable key span = some es') : es'.Distinct := by
  unfold Entries.openTable at hes
  split at hes
  · rename_i hfind
    cases hes
    exact h.concat hfind (table_iff.2 .nil)
  · rename_i hfind
    cases hes
    exact (h.erase key.name).concat (find?_eq_none.2 (notMem_names_erase es key.name))
      (table_iff.2 (table_iff.1 (h.value hfind)))
  · cases hes

theorem openElement (h : es.Distinct) (hes : es.openElement key span = some es') :
    es'.Distinct := by
  unfold Entries.openElement at hes
  split at hes
  · rename_i hfind
    cases hes
    exact h.concat hfind (tables_iff.2 (by simpa using .nil))
  · rename_i hfind
    cases hes
    exact h.replace _ ((h.value hfind).tables_concat .nil)
  · cases hes

end Entries.Distinct

/-! ### The readers -/

/-- What reading one item preserves, reading a list of items preserves. -/
theorem readList_preserves {α : Type} {P : List α → Prop} {close : Char}
    {item : List α → Reader (List α)}
    (hitem : ∀ {before after : List α} {s s' : List Char}, P before →
      item before s = some (after, s') → P after)
    {fuel : Nat} {before after : List α} {s s' : List Char} (hbefore : P before)
    (hread : readList close item fuel before s = some (after, s')) : P after := by
  induction fuel generalizing before s with
  | zero => cases hread
  | succ fuel ih =>
    unfold readList at hread
    dsimp only at hread
    split at hread
    · cases hread
    · split at hread
      · cases hread
        exact hbefore
      · obtain ⟨⟨next, rest⟩, hnext, hread⟩ := Option.bind_eq_some_iff.1 hread
        have hP := hitem hbefore hnext
        dsimp only at hread
        split at hread
        · exact ih hP hread
        · split at hread
          · cases hread
            exact hP
          · cases hread
        · cases hread

theorem distinct_of_readBare {s s' : List Char} {value : Value}
    (h : readBare s = some (value, s')) : value.Distinct := by
  unfold readBare at h
  dsimp only at h
  repeat' split at h
  all_goals cases h
  all_goals constructor

/-- The items of an array are read one by one, and so are the entries of a table in braces, which
are assigned like the lines of a document. -/
theorem distinct_of_readItem {depth : Nat} {s s' : List Char} {item : Item}
    (h : readItem depth s = some (item, s')) : item.2.Distinct := by
  fun_induction readItem depth s generalizing s' item with
  | case1 rest => cases h
  | case2 rest depth readOne =>
    rename_i ih
    obtain ⟨⟨items, s₁⟩, hitems, hitem⟩ := Option.bind_eq_some_iff.1 h
    cases hitem
    refine .array (readList_preserves (P := fun items => ∀ item ∈ items, item.2.Distinct) ?_
      (by simp) hitems)
    intro before after s s' hbefore hone
    obtain ⟨⟨item, s₂⟩, hread, hafter⟩ := Option.bind_eq_some_iff.1 hone
    cases hafter
    exact List.forall_mem_append.2 ⟨hbefore, List.forall_mem_singleton.2 (ih s hread)⟩
  | case3 rest => cases h
  | case4 rest depth readOne =>
    rename_i ih
    obtain ⟨⟨entries, s₁⟩, hentries, hitem⟩ := Option.bind_eq_some_iff.1 h
    cases hitem
    refine Value.Distinct.table_iff.2 (readList_preserves (P := Entries.Distinct) ?_ .nil hentries)
    intro before after s s' hbefore hone
    obtain ⟨⟨⟨path, key⟩, s₂⟩, -, hone⟩ := Option.bind_eq_some_iff.1 hone
    dsimp only at hone
    split at hone
    · obtain ⟨⟨value, s₃⟩, hread, hone⟩ := Option.bind_eq_some_iff.1 hone
      obtain ⟨entries, hassign, hafter⟩ := Option.bind_eq_some_iff.1 hone
      cases hafter
      exact hbefore.assign (ih _ hread) hassign
    · cases hone
  | case5 depth c rest =>
    obtain ⟨⟨value, s₁⟩, -, hitem⟩ := Option.bind_eq_some_iff.1 h
    cases hitem
    exact .text _
  | case6 depth c rest =>
    obtain ⟨⟨value, s₁⟩, hbare, hitem⟩ := Option.bind_eq_some_iff.1 h
    cases hitem
    exact distinct_of_readBare hbare
  | case7 depth => cases h

/-! ### The lines of a document -/

namespace Draft

/-- What every line of a document preserves. -/
def Distinct (draft : Draft) : Prop := draft.entries.Distinct

variable {draft draft' : Draft} {s s' : List Char}

theorem Distinct.readAssignment (h : draft.Distinct)
    (hread : readAssignment draft s = some (draft', s')) : draft'.Distinct := by
  unfold Toml.readAssignment at hread
  obtain ⟨⟨⟨path, key⟩, s₁⟩, -, hread⟩ := Option.bind_eq_some_iff.1 hread
  dsimp only at hread
  split at hread
  · obtain ⟨⟨item, s₂⟩, hitem, hread⟩ := Option.bind_eq_some_iff.1 hread
    obtain ⟨entries, hchange, hdraft⟩ := Option.bind_eq_some_iff.1 hread
    cases hdraft
    have hvalue := distinct_of_readItem hitem
    exact Entries.Distinct.changeAt (fun hes hassign => hes.assign hvalue hassign) h hchange
  · cases hread

theorem Distinct.readHeader (h : draft.Distinct)
    (hread : readHeader draft s = some (draft', s')) : draft'.Distinct := by
  unfold Toml.readHeader at hread
  split at hread
  · obtain ⟨⟨⟨path, key⟩, s₁⟩, -, hread⟩ := Option.bind_eq_some_iff.1 hread
    dsimp only at hread
    split at hread
    · obtain ⟨entries, hchange, hdraft⟩ := Option.bind_eq_some_iff.1 hread
      cases hdraft
      exact Entries.Distinct.changeAt Entries.Distinct.openElement h hchange
    · cases hread
  · obtain ⟨⟨⟨path, key⟩, s₁⟩, -, hread⟩ := Option.bind_eq_some_iff.1 hread
    dsimp only at hread
    split at hread
    · obtain ⟨entries, hchange, hdraft⟩ := Option.bind_eq_some_iff.1 hread
      cases hdraft
      exact Entries.Distinct.changeAt Entries.Distinct.openTable h hchange
    · cases hread
  · cases hread

theorem Distinct.readLines {fuel : Nat} {document : Entries} (h : draft.Distinct)
    (hread : readLines fuel draft s = some document) : document.Distinct := by
  induction fuel generalizing draft s with
  | zero => cases hread
  | succ fuel ih =>
    unfold Toml.readLines at hread
    dsimp only at hread
    split at hread
    · cases hread
      exact h
    · split at hread
      · obtain ⟨⟨next, s₁⟩, hline, hread⟩ := Option.bind_eq_some_iff.1 hread
        obtain ⟨s₂, -, hread⟩ := Option.bind_eq_some_iff.1 hread
        exact ih (h.readHeader hline) hread
      · obtain ⟨⟨next, s₁⟩, hline, hread⟩ := Option.bind_eq_some_iff.1 hread
        obtain ⟨s₂, -, hread⟩ := Option.bind_eq_some_iff.1 hread
        exact ih (h.readAssignment hline) hread

end Draft

/-- **No table of a document has a key twice.** -/
theorem distinct_of_read? {text : List Char} {document : Entries}
    (h : read? text = some document) : document.Distinct := by
  have hempty : Draft.Distinct ⟨[], []⟩ := .nil
  exact hempty.readLines h

/-! ### Documents in another order -/

namespace Value

def isTable : Value → Bool
  | table .. => true
  | _ => false

/-- Whether the value is a sequence, be it written in brackets or by headers in double brackets. -/
def isArray : Value → Bool
  | array _ | tables _ => true
  | _ => false

/-- The same data in another place: spans and the origins of tables may differ, and the keys of a
table may stand in another order. -/
inductive Rearranged : Value → Value → Prop
  | text (value : String) : Rearranged (.text value) (.text value)
  | integer (value : Int) : Rearranged (.integer value) (.integer value)
  | float (value : Binary64) : Rearranged (.float value) (.float value)
  | boolean (value : Bool) : Rearranged (.boolean value) (.boolean value)
  | dateTime : Rearranged .dateTime .dateTime
  | array {items items' : List Item} (length : items.length = items'.length)
    (each : ∀ pair ∈ items.zip items', Rearranged pair.1.2 pair.2.2) :
    Rearranged (.array items) (.array items')
  | table {origin origin' : TableOrigin} {es moved es' : Entries} (order : es.Perm moved)
    (names : moved.names = es'.names)
    (each : ∀ pair ∈ moved.zip es', Rearranged pair.1.2.2 pair.2.2.2) :
    Rearranged (.table origin es) (.table origin' es')
  | tables {elements elements' : List (Span × Entries)}
    (length : elements.length = elements'.length)
    (each : ∀ pair ∈ elements.zip elements',
      Rearranged (.table .header pair.1.2) (.table .header pair.2.2)) :
    Rearranged (.tables elements) (.tables elements')

variable {value value' : Value}

theorem Rearranged.eq_text_iff (h : value.Rearranged value') (t : String) :
    value = .text t ↔ value' = .text t := by
  cases h <;> simp

theorem Rearranged.eq_integer_iff (h : value.Rearranged value') (n : Int) :
    value = .integer n ↔ value' = .integer n := by
  cases h <;> simp

theorem Rearranged.isTable_eq (h : value.Rearranged value') : value.isTable = value'.isTable := by
  cases h <;> rfl

theorem Rearranged.isArray_eq (h : value.Rearranged value') : value.isArray = value'.isArray := by
  cases h <;> rfl

end Value

namespace Entries

variable {es es' moved : Entries} {name : String}

/-- The same data in another place and with the keys in another order, at every depth. -/
def Rearranged (es es' : Entries) : Prop :=
  Value.Rearranged (.table .header es) (.table .header es')

theorem Distinct.find?_perm (h : es.Distinct) (hperm : es.Perm moved) :
    moved.find? name = es.find? name := by
  have hmoved : moved.Distinct :=
    ⟨(hperm.map _).nodup_iff.1 h.names, fun entry hentry => h.each entry (hperm.mem_iff.2 hentry)⟩
  ext item
  rw [h.find?_eq_some_iff, hmoved.find?_eq_some_iff]
  simp only [hperm.mem_iff]

/-- Entries with the same names in the same order have related values under each name. -/
theorem find?_zip {R : Item → Item → Prop} (hnames : es.names = es'.names)
    (heach : ∀ pair ∈ es.zip es', R pair.1.2 pair.2.2) :
    Option.Rel R (es.find? name) (es'.find? name) := by
  induction es generalizing es' with
  | nil =>
    obtain rfl : es' = [] := List.map_eq_nil_iff.1 hnames.symm
    exact .none
  | cons entry es ih =>
    obtain - | ⟨entry', es'⟩ := es'
    · cases hnames
    · rw [names_cons, names_cons, List.cons.injEq] at hnames
      obtain ⟨hname, hnames⟩ := hnames
      rw [find?_cons, find?_cons, ← hname]
      split
      · exact .some (heach (entry, entry') List.mem_cons_self)
      · exact ih hnames fun pair hpair => heach pair (List.mem_cons_of_mem _ hpair)

namespace Rearranged

/-- Rearranged tables have rearranged values under each name. -/
theorem find? (h : es.Rearranged es') (hes : es.Distinct) (name : String) :
    Option.Rel (fun item item' => item.2.Rearranged item'.2) (es.find? name) (es'.find? name) := by
  obtain - | - | - | - | - | - | ⟨horder, hnames, heach⟩ | - := h
  rw [← hes.find?_perm horder]
  exact find?_zip hnames heach

theorem mem_names (h : es.Rearranged es') : name ∈ es.names ↔ name ∈ es'.names := by
  obtain - | - | - | - | - | - | ⟨horder, hnames, -⟩ | - := h
  rw [← hnames]
  exact (horder.map _).mem_iff

theorem find?_eq_none (h : es.Rearranged es') :
    es.find? name = none ↔ es'.find? name = none := by
  rw [Entries.find?_eq_none, Entries.find?_eq_none, h.mem_names]

/-- What rearranging a value does not change, rearranging the table it is in does not change. -/
theorem exists_find?_iff {P : Value → Prop} (h : es.Rearranged es') (hes : es.Distinct)
    (name : String)
    (hP : ∀ {value value' : Value}, value.Distinct → value.Rearranged value' →
      (P value ↔ P value')) :
    (∃ item, es.find? name = some item ∧ P item.2) ↔
      ∃ item, es'.find? name = some item ∧ P item.2 := by
  have hrel := h.find? hes name
  cases hfind : es.find? name with
  | none => simp [h.find?_eq_none.1 hfind]
  | some item =>
    rw [hfind] at hrel
    cases hfind' : es'.find? name with
    | none =>
      rw [hfind'] at hrel
      cases hrel
    | some item' =>
      rw [hfind'] at hrel
      obtain ⟨hitem⟩ | - := hrel
      have hiff := hP (hes.value hfind) hitem
      simpa using hiff

end Rearranged

end Entries

end SyntaxView.Toml
