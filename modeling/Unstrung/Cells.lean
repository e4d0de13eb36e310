import Unstrung.Prefix

/-! What is written to an entry of a prefix container and read from it. A pointer goes by the cell, so that it
does not matter here whether a lookup finds the entry again. -/
namespace Unstrung
namespace PrefixMap

section Writing
variable {m : PrefixMap} {cell : Nat} {f : PrefixNode → PrefixNode} (keeps : ∀ p, (f p).cell = p.cell)
include keeps

theorem writtenCells (cell c : Nat) : ((fun p => p.cell == c) ∘ fun p => if p.cell = cell then f p else p) =
    fun p : PrefixNode => p.cell == c := by
  funext p
  dsimp only [Function.comp]
  split
  · rw [keeps]
  · rfl

theorem nodeWrite (c : Nat) : (m.write cell f).node c =
    (((m.entries.map Prod.snd).find? fun p => p.cell == c).map fun p => if p.cell = cell then f p else p).getD
      (PrefixNode.fresh c) := by
  have entries : (m.write cell f).entries.map Prod.snd =
      (m.entries.map Prod.snd).map fun p => if p.cell = cell then f p else p := by
    simp [write]
  rw [node,entries,List.find?_map,writtenCells keeps]

theorem nodeSelf (there : ∃ e ∈ m.entries, e.2.cell = cell) : (m.write cell f).node cell = f (m.node cell) := by
  rw [nodeWrite keeps,node]
  cases found : (m.entries.map Prod.snd).find? fun p => p.cell == cell with
  | none =>
    obtain ⟨e,mem,its⟩ := there
    have differs := List.find?_eq_none.mp found e.2 (List.mem_map_of_mem mem)
    exact absurd its (by simpa using differs)
  | some p =>
    have its : p.cell = cell := by simpa using List.find?_some found
    simp [its]

theorem nodeWritten {P Q : PrefixNode → Prop} (writes : ∀ p, Q p → P (f p)) (old : Q (m.node cell))
    (made : P (PrefixNode.fresh cell)) : P ((m.write cell f).node cell) := by
  by_cases there : ∃ e ∈ m.entries, e.2.cell = cell
  · rw [nodeSelf keeps there]
    exact writes _ old
  · rw [nodeWrite keeps]
    cases found : (m.entries.map Prod.snd).find? fun p => p.cell == cell with
    | none => exact made
    | some p =>
      obtain ⟨e,mem,rfl⟩ := List.mem_map.mp (List.mem_of_find?_eq_some found)
      have its : e.2.cell = cell := by simpa using List.find?_some found
      exact absurd ⟨e,mem,its⟩ there

theorem nodeOut (leaves : ∀ p, (f p).installed = false) : ((m.write cell f).node cell).installed = false :=
  nodeWritten (P := fun n => n.installed = false) (Q := fun _ => True) keeps (fun p _ => leaves p) trivial rfl

end Writing

variable {m : PrefixMap} {k : IpSubnet}

theorem subscriptFound {n : PrefixNode} (found : m.find? k = some n) : m.subscript k = (m,n.cell) := by
  simp only [subscript,found,Option.getD_some,OrderedMap.updateFound found]

theorem subscriptThere (m : PrefixMap) (k : IpSubnet) :
    ∃ e ∈ (m.subscript k).1.entries, e.1 = k ∧ e.2.cell = (m.subscript k).2 :=
  ⟨_,OrderedMap.updateMember m k _ id,rfl,rfl⟩

theorem subscriptKeys {s : IpSubnet} :
    s ∈ (m.subscript k).1.entries.map Prod.fst ↔ s ∈ m.entries.map Prod.fst ∨ s = k := OrderedMap.updateKeys _ id

theorem writeMember {e : IpSubnet × PrefixNode} (mem : e ∈ m.entries) (f : PrefixNode → PrefixNode) :
    (e.1,f e.2) ∈ (m.write e.2.cell f).entries := by
  simp only [write,OrderedMap.mapEntries,List.mem_map]
  exact ⟨e,mem,by rw [if_pos rfl]⟩

theorem writeKeys (m : PrefixMap) (cell : Nat) (f : PrefixNode → PrefixNode) :
    (m.write cell f).entries.map Prod.fst = m.entries.map Prod.fst := by
  simp [write]

/-! No two entries have one cell. -/

structure Celled (m : PrefixMap) : Prop where
  apart : ∀ a ∈ m.entries, ∀ b ∈ m.entries, a.2.cell = b.2.cell → a = b
  made : ∀ e ∈ m.entries, e.2.cell < m.entries.length

theorem celledEmpty : Celled .empty := ⟨fun _ none => absurd none List.not_mem_nil,fun _ none => absurd none List.not_mem_nil⟩

theorem celledNode (celled : Celled m) {e : IpSubnet × PrefixNode} (mem : e ∈ m.entries) : m.node e.2.cell = e.2 := by
  rw [node]
  cases found : (m.entries.map Prod.snd).find? fun p => p.cell == e.2.cell with
  | none =>
    have differs := List.find?_eq_none.mp found e.2 (List.mem_map_of_mem mem)
    simp at differs
  | some p =>
    obtain ⟨a,there,rfl⟩ := List.mem_map.mp (List.mem_of_find?_eq_some found)
    have its : a.2.cell = e.2.cell := by simpa using List.find?_some found
    rw [celled.apart a there e mem its]
    rfl

theorem subscriptMade (absent : m.find? k = none) {e : IpSubnet × PrefixNode} :
    e ∈ (m.subscript k).1.entries ↔ e = (k,PrefixNode.fresh m.entries.length) ∨ e ∈ m.entries := by
  have missing : m.tree.find? prefixLess k = none := absent
  simp only [subscript,OrderedMap.entries,OrderedMap.update,Tree.update,missing,Tree.blackenList]
  exact Tree.insertMember

theorem celledSubscript (celled : Celled m) (k : IpSubnet) : Celled (m.subscript k).1 := by
  cases found : m.find? k with
  | some n =>
    rw [subscriptFound found]
    exact celled
  | none =>
    have size : (m.subscript k).1.entries.length = m.entries.length + 1 := by
      have missing : m.tree.find? prefixLess k = none := found
      simp only [subscript,OrderedMap.entries,OrderedMap.update,Tree.update,missing,Tree.blackenList]
      exact Tree.insertLength _
    refine ⟨fun a inA b inB same => ?_,fun e mem => ?_⟩
    · rcases (subscriptMade found).mp inA with rfl | oldA
      · rcases (subscriptMade found).mp inB with rfl | oldB
        · rfl
        · have made := celled.made b oldB
          rw [← same] at made
          exact absurd made (Nat.lt_irrefl _)
      · rcases (subscriptMade found).mp inB with rfl | oldB
        · have made := celled.made a oldA
          rw [same] at made
          exact absurd made (Nat.lt_irrefl _)
        · exact celled.apart a oldA b oldB same
    · rw [size]
      rcases (subscriptMade found).mp mem with rfl | old
      · exact Nat.lt_succ_self _
      · exact Nat.lt_succ_of_lt (celled.made e old)

theorem writeEntry {cell : Nat} {f : PrefixNode → PrefixNode} {e : IpSubnet × PrefixNode} :
    e ∈ (m.write cell f).entries ↔ ∃ a ∈ m.entries, (a.1,if a.2.cell = cell then f a.2 else a.2) = e := by
  simp only [write,OrderedMap.mapEntries,List.mem_map]

theorem celledWrite (celled : Celled m) (cell : Nat) {f : PrefixNode → PrefixNode} (keeps : ∀ p, (f p).cell = p.cell) :
    Celled (m.write cell f) := by
  have cells (p : PrefixNode) : (if p.cell = cell then f p else p).cell = p.cell := by
    split
    · exact keeps p
    · rfl
  refine ⟨fun a inA b inB same => ?_,fun e mem => ?_⟩
  · obtain ⟨a,oldA,rfl⟩ := writeEntry.mp inA
    obtain ⟨b,oldB,rfl⟩ := writeEntry.mp inB
    rw [celled.apart a oldA b oldB (by rw [← cells a.2,← cells b.2]; exact same)]
  · obtain ⟨a,old,rfl⟩ := writeEntry.mp mem
    have length : (m.write cell f).entries.length = m.entries.length := by simp [write]
    rw [length]
    exact (cells a.2).symm ▸ celled.made a old

end PrefixMap
end Unstrung
