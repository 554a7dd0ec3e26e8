-- SUMMARY: The symbol tables of FinSH.
import ZigbeeGateway.Finsh.Compiler

/-!
# Symbols

A name in a static table is compared as a whole. In a list of symbols that were appended at run time
only the first `strlen(name)` characters are compared, so an identifier also finds a longer name.
-/

namespace RtThread.Finsh

def finshNameMax : Nat := 16

structure TableEntry where
  name : List Char
  symbol : Symbol

/-- The static table of functions or variables, and the list of those that were appended. -/
structure Table where
  entries : List TableEntry
  items : List TableEntry

/-- The search of `finsh_syscall_lookup` and `finsh_sysvar_lookup`. -/
def Table.lookup (table : Table) (name : List Char) : Option TableEntry :=
  (table.entries.find? fun index => index.name = name).or
    (table.items.find? fun item => item.name.take name.length = name.take name.length)

structure Symbols where
  vars : List TableEntry
  sysvars : Table
  syscalls : Table

namespace Symbols

def finshVarLookup (S : Symbols) (name : List Char) : Option TableEntry :=
  S.vars.find? fun var => var.name.take finshNameMax = name.take finshNameMax

def finshSysvarLookup (S : Symbols) : List Char → Option TableEntry := S.sysvars.lookup

def finshSyscallLookup (S : Symbols) : List Char → Option TableEntry := S.syscalls.lookup

/-- `finsh_node_new_id`: the entry in the node, if there is room for a node. -/
def finshNodeNewId (S : Symbols) (room : Bool) (id : List Char) : Except Error TableEntry :=
  match ((S.finshVarLookup id).or (S.finshSysvarLookup id)).or (S.finshSyscallLookup id) with
  | some entry => if room then .ok entry else .error .memoryFull
  | none => .error .unknownSymbol

end Symbols

/-- An identifier that is kept as a whole. -/
def IsId (id : List Char) : Prop := id ≠ [] ∧ id.length ≤ finshNameMax - 1

/-- A search finds the entries with the given name and no others. -/
def Exact (lookup : List Char → Option TableEntry) (table : Table) : Prop :=
  ∀ id, IsId id → (∀ entry, lookup id = some entry → entry.name = id) ∧
    ((∃ entry ∈ table.entries ++ table.items, entry.name = id) → (lookup id).isSome)

/-- Where an identifier begins the name of an appended symbol, it is that name, or there is an entry
with that name before it. -/
def Table.Clear (table : Table) : Prop :=
  ∀ before item after, table.items = before ++ item :: after → ∀ id, IsId id → id <+: item.name →
    id = item.name ∨ ∃ entry ∈ table.entries ++ before, entry.name = id

variable {table : Table} {id : List Char} {S : Symbols}

/-- In a list only the beginning of a name is compared. -/
theorem Table.lookup_eq (table : Table) (id : List Char) :
    table.lookup id = (table.entries.find? fun index => index.name = id).or
      (table.items.find? fun item => id <+: item.name) := by
  have hstarts : ∀ item : TableEntry, item.name.take id.length = id.take id.length ↔ id <+: item.name := by
    intro item
    rw [List.take_length, List.prefix_iff_eq_take, eq_comm]
  simp only [lookup, hstarts]

theorem Table.exact_iff : Exact table.lookup table ↔ table.Clear := by
  constructor
  · intro hexact before item after hitems id hid hstarts
    have hfound := (hexact id hid).1
    have hitem : (item :: after).find? (fun item => id <+: item.name) = some item :=
      List.find?_cons_of_pos (by simpa using hstarts)
    rw [lookup_eq, hitems, List.find?_append, hitem] at hfound
    cases hstatic : table.entries.find? (fun index => index.name = id) with
    | some entry =>
      exact .inr ⟨entry, List.mem_append_left _ (List.mem_of_find?_eq_some hstatic),
        by simpa using List.find?_some hstatic⟩
    | none =>
      cases hbefore : before.find? (fun item => id <+: item.name) with
      | some entry =>
        rw [hstatic, hbefore] at hfound
        exact .inr ⟨entry, List.mem_append_right _ (List.mem_of_find?_eq_some hbefore), hfound entry rfl⟩
      | none =>
        rw [hstatic, hbefore] at hfound
        exact .inl (hfound item rfl).symm
  · intro hclear id hid
    rw [lookup_eq]
    refine ⟨fun entry hentry => ?_, ?_⟩
    · rcases Option.or_eq_some_iff.mp hentry with hstatic | ⟨hstatic, hitem⟩
      · simpa using List.find?_some hstatic
      · obtain ⟨hstarts, before, after, hitems, hbefore⟩ := List.find?_eq_some_iff_append.mp hitem
        rcases hclear before entry after hitems id hid (of_decide_eq_true hstarts) with heq | ⟨e, he, hname⟩
        · exact heq.symm
        · rcases List.mem_append.mp he with hmem | hmem
          · exact absurd hname (by simpa using List.find?_eq_none.mp hstatic e hmem)
          · exact absurd (hname ▸ List.prefix_rfl : id <+: e.name) (by simpa using hbefore e hmem)
    · rintro ⟨entry, hmem, rfl⟩
      rw [Option.isSome_or, Bool.or_eq_true, List.find?_isSome, List.find?_isSome]
      rcases List.mem_append.mp hmem with hmem | hmem
      · exact .inl ⟨entry, hmem, by simp⟩
      · exact .inr ⟨entry, hmem, by simp⟩

theorem Symbols.finshVarLookup_name {entry : TableEntry} (hid : IsId id) (h : S.finshVarLookup id = some entry) :
    entry.name = id := by
  have hname : entry.name.take finshNameMax = id.take finshNameMax := by simpa using List.find?_some h
  have hlen : id.length < finshNameMax := Nat.lt_of_le_pred (by decide) hid.2
  have htake := congrArg List.length hname
  rw [List.take_of_length_le hlen.le, List.length_take] at htake
  rwa [List.take_of_length_le hlen.le, List.take_of_length_le (by omega)] at hname

/-- Both searches are exact, and so is a node for an identifier, exactly if no symbol was appended whose
name begins with another name that is not known before it. -/
theorem names_exact_iff (S : Symbols) :
    (Exact S.finshSysvarLookup S.sysvars ∧ Exact S.finshSyscallLookup S.syscalls ∧
      ∀ id room entry, IsId id → S.finshNodeNewId room id = .ok entry → entry.name = id) ↔
    S.sysvars.Clear ∧ S.syscalls.Clear := by
  constructor
  · rintro ⟨hsysvars, hsyscalls, -⟩
    exact ⟨Table.exact_iff.mp hsysvars, Table.exact_iff.mp hsyscalls⟩
  · rintro ⟨hsysvars, hsyscalls⟩
    have hsysvars := Table.exact_iff.mpr hsysvars
    have hsyscalls := Table.exact_iff.mpr hsyscalls
    refine ⟨hsysvars, hsyscalls, fun id room entry hid hnode => ?_⟩
    unfold Symbols.finshNodeNewId at hnode
    split at hnode
    next found hfound =>
      cases room with
      | false => cases hnode
      | true =>
        cases hnode
        rcases Option.or_eq_some_iff.mp hfound with hfound | ⟨-, hfound⟩
        · rcases Option.or_eq_some_iff.mp hfound with hfound | ⟨-, hfound⟩
          · exact Symbols.finshVarLookup_name hid hfound
          · exact (hsysvars id hid).1 entry hfound
        · exact (hsyscalls id hid).1 entry hfound
    next => cases hnode

/-- `list` is looked up when only `list_mem` has been appended. -/
theorem longer_name_found :
    (⟨[], ⟨[], []⟩, ⟨[], [⟨"list_mem".toList, .syscall 0 0⟩]⟩⟩ : Symbols).finshNodeNewId true "list".toList =
      .ok ⟨"list_mem".toList, .syscall 0 0⟩ ∧ IsId "list".toList := by
  refine ⟨rfl, ?_⟩
  unfold IsId
  decide

end RtThread.Finsh
