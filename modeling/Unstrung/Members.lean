import Unstrung.Reception

/-! The members of a DAG, as a pointer to one finds them: what address each answers to, and
that none is forgotten or renamed. -/
namespace Unstrung
namespace Host

def answersTo (n : RplNode) : Option In6Addr := if n.valid then some n.nodeip else none

def known (m : NodeMap) (a : In6Addr) : Option In6Addr := answersTo ((m.find? a).getD RplNode.fresh)

theorem isEqualKnown (d : DagNetwork) (p v6 : In6Addr) :
    (d.member p).isEqual v6 ↔ known d.dagMembers p = some v6 := by
  simp only [RplNode.isEqual,known,answersTo,DagNetwork.member]
  split <;> rename_i valid <;> simp [valid]

theorem knownNodeip {d : DagNetwork} {p ip : In6Addr} (isKnown : known d.dagMembers p = some ip) :
    (d.member p).nodeip = ip := by
  simp only [known,answersTo] at isKnown
  split at isKnown
  · exact Option.some.inj isKnown
  · contradiction

theorem knownMarkself (d : DagNetwork) (src a : In6Addr) :
    known (d.markself src).dagMembers a = known d.dagMembers a := by
  simp only [known,DagNetwork.markself]
  by_cases it : a = src
  · subst it
    rw [OrderedMap.findUpdateSame]
    rfl
  · rw [OrderedMap.findUpdateOther _ it]

theorem makevalidAnswers (n : RplNode) (a : In6Addr) :
    answersTo (n.makevalid a) = some ((answersTo n).getD a) := by
  simp only [answersTo,RplNode.makevalid]
  split <;> simp [*]

theorem knownMakevalid (d : DagNetwork) (src : In6Addr) :
    known (d.makevalid src).dagMembers src = some ((known d.dagMembers src).getD src) := by
  simp only [known,DagNetwork.makevalid]
  rw [OrderedMap.findUpdateSame]
  exact makevalidAnswers _ src

theorem knownMakevalidOther (d : DagNetwork) {src a : In6Addr} (other : a ≠ src) :
    known (d.makevalid src).dagMembers a = known d.dagMembers a := by
  simp only [known,DagNetwork.makevalid]
  rw [OrderedMap.findUpdateOther _ other]

def Remembers (m n : NodeMap) : Prop := ∀ a ip, known m a = some ip → known n a = some ip

def Named (m : NodeMap) : Prop := ∀ a ip, known m a = some ip → ip = a

theorem sightingRemembers {d : DagNetwork} {src : In6Addr} {members : NodeMap}
    (h : Sighting d src members) : Remembers d.dagMembers members := by
  intro a ip old
  rcases h with rfl | rfl | rfl
  · exact old
  · rwa [knownMarkself]
  · by_cases it : a = src
    · subst it
      rw [knownMakevalid,old]
      rfl
    · rwa [knownMakevalidOther d it]

theorem sightingNamed {d : DagNetwork} {src : In6Addr} {members : NodeMap}
    (h : Sighting d src members) (named : Named d.dagMembers) : Named members := by
  intro a ip now
  rcases h with rfl | rfl | rfl
  · exact named a ip now
  · exact named a ip (knownMarkself d src a ▸ now)
  · by_cases it : a = src
    · subst it
      rw [knownMakevalid] at now
      cases old : known d.dagMembers a with
      | none => rw [old] at now; exact (Option.some.inj now).symm
      | some j => rw [old] at now; exact Option.some.inj now ▸ named a j old
    · exact named a ip (knownMakevalidOther d it ▸ now)

theorem makevalidKnown {d : DagNetwork} (named : Named d.dagMembers) (src : In6Addr) :
    known (d.makevalid src).dagMembers src = some src := by
  have now := knownMakevalid d src
  rwa [sightingNamed (.inr (.inr rfl)) named src _ now] at now

end Host
end Unstrung
