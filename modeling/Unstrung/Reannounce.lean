import Unstrung.SelfAddress

/-! A prefix announced again. The flag that is to keep a known one from being configured anew is set in the
setter's own parameter, and making the entry of the address resets it: only a prefix this node has given itself
and takes no address of is left alone. -/
namespace Unstrung
open Handler

namespace Host

structure NoOp (s t : Host) : Prop where
  out : t.out = s.out
  daoNeeded : t.dag.daoNeeded = s.dag.daoNeeded
  mPrefix : t.dag.mPrefix = s.dag.mPrefix
  dagPrefixes : t.dag.dagPrefixes = s.dag.dagPrefixes
  dagAnnounced : t.dag.dagAnnounced = s.dag.dagAnnounced
  dagMe : t.dag.dagMe = s.dag.dagMe

section Twice
variable (peer : In6Addr) (iface : NetworkInterface) (subnet : IpSubnet)

/-- After the first call; a DAO may have been asked for and sent since then. -/
def announcedOnce (needed : Bool) (h : Host) : Host :=
  (after (addPrefix peer iface subnet) h).withDag fun d => {d with daoNeeded := needed}

/-- The second lookup of the prefix finds the entry the first one gave. -/
def FindsAgain (h : Host) : Prop :=
  ((after (addPrefix peer iface subnet) h).dag.dagPrefixes.find? subnet).map PrefixNode.cell =
    some (h.dag.dagPrefixes.subscript subnet).2

def ReannounceNoOp (h : Host) : Prop :=
  ∀ needed, NoOp (announcedOnce peer iface subnet needed h)
    (after (addPrefix peer iface subnet) (announcedOnce peer iface subnet needed h))

theorem adoptAddressIgnored {h : Host} (ignores : h.dag.mIgnorePio = true) :
    (adoptAddress peer iface subnet).run h = .ok () h := by
  simp only [adoptAddress,EStateM.run_bind,EStateM.run_get,ignores]
  rfl

theorem addPrefixIgnored {h : Host} (ignores : h.dag.mIgnorePio = true) :
    (addPrefix peer iface subnet).run h = (learnPrefix peer subnet).run h := by
  obtain ⟨t,learns,same⟩ := learnPrefixRun peer subnet h
  have still : t.dag.mIgnorePio = true := (congrArg (fun v => v.2.1) same).trans ignores
  simp only [addPrefix,EStateM.run_bind,learns,adoptAddressIgnored peer iface subnet still]

theorem lookedAgain {h : Host} (found : (h.dag.dagPrefixes.find? subnet).isSome) : h.looked subnet = h := by
  obtain ⟨n,is⟩ := Option.isSome_iff_exists.mp found
  rw [looked,PrefixMap.subscriptFound is]

theorem maybeScheduleDioKnown :
    Respects (SameView fun h : Host => (h.dag.dagPrefixes,h.dag.daoNeeded)) maybeScheduleDio :=
  maybeScheduleDioRespects (scheduleDioRespects (fun _ _ _ => rfl) 1) fun _ => rfl

theorem learnPrefixForgets {h : Host} (unknown : ¬Known subnet h) :
    ((after (learnPrefix peer subnet) h).dag.dagPrefixes.node (h.dag.dagPrefixes.subscript subnet).2).installed = false ∧
      (after (learnPrefix peer subnet) h).dag.daoNeeded = true := by
  let g := (h.looked subnet).withDag fun d =>
    ((d.setPrefix subnet).modifyNode (.prefixes (h.dag.dagPrefixes.subscript subnet).2) fun n =>
      ((n.setPrefix subnet).setInstalled true).setAnnouncer peer).setDaoNeeded
  have same : after (learnPrefix peer subnet) h = after maybeScheduleDio g := by
    simp only [after,learnPrefixUnknown unknown]
    rfl
  have kept := maybeScheduleDioKnown g
  simp only [SameView,Prod.mk.injEq] at kept
  rw [same,kept.1,kept.2]
  exact ⟨PrefixMap.nodeOut (f := fun n => ((n.setPrefix subnet).setInstalled true).setAnnouncer peer) (fun _ => rfl)
    fun _ => rfl,rfl⟩

variable {peer iface subnet} {h : Host}

theorem knownNoOp (found : FindsAgain peer iface subnet h) (ignores : h.dag.mIgnorePio = true)
    (known : Known subnet h) : ReannounceNoOp peer iface subnet h := by
  intro needed
  let s := announcedOnce peer iface subnet needed h
  have first : after (addPrefix peer iface subnet) h = h.looked subnet :=
    afterOk ((addPrefixIgnored peer iface subnet ignores).trans (learnPrefixKnown known))
  rw [FindsAgain,first] at found
  obtain ⟨n,finds,cell⟩ := Option.map_eq_some_iff.mp found
  have map : s.dag.dagPrefixes = (h.looked subnet).dag.dagPrefixes := by
    simp only [s,announcedOnce,first]
    rfl
  have seen : s.dag.dagPrefixes.find? subnet = some n := map ▸ finds
  have still : Known subnet s := by
    rw [Known,PrefixMap.subscriptFound seen,cell,map]
    exact known
  have heeds : s.dag.mIgnorePio = true := by
    simp only [s,announcedOnce,first]
    exact ignores
  have again : after (addPrefix peer iface subnet) s = s := by
    rw [afterOk ((addPrefixIgnored peer iface subnet heeds).trans (learnPrefixKnown still)),
      lookedAgain subnet (Option.isSome_of_eq_some seen)]
  change NoOp s (after (addPrefix peer iface subnet) s)
  rw [again]
  exact ⟨rfl,rfl,rfl,rfl,rfl,rfl⟩

theorem noOpIgnores (noOp : ReannounceNoOp peer iface subnet h) : h.dag.mIgnorePio = true := by
  by_contra heeds
  let s := announcedOnce peer iface subnet false h
  have kept := addPrefixUpward peer iface subnet h
  have still : s.dag.mIgnorePio = h.dag.mIgnorePio := congrArg (fun c => c.1.mIgnorePio) kept.common
  obtain ⟨t,run,configured⟩ := addPrefixRun peer iface subnet (still.trans (Bool.eq_false_of_not_eq_true heeds))
  have out := (noOp false).out
  change (after (addPrefix peer iface subnet) s).out = s.out at out
  rw [afterOk run,configured.out] at out
  exact absurd (List.append_right_eq_self.mp out) (List.cons_ne_nil _ _)

theorem noOpKnown (found : FindsAgain peer iface subnet h) (noOp : ReannounceNoOp peer iface subnet h) :
    Known subnet h := by
  by_contra unknown
  have ignores := noOpIgnores noOp
  let s := announcedOnce peer iface subnet false h
  have first : after (addPrefix peer iface subnet) h = after (learnPrefix peer subnet) h := by
    simp only [after,addPrefixIgnored peer iface subnet ignores]
  obtain ⟨forgot,-⟩ := learnPrefixForgets peer subnet unknown
  rw [FindsAgain,first] at found
  obtain ⟨n,finds,cell⟩ := Option.map_eq_some_iff.mp found
  have map : s.dag.dagPrefixes = (after (learnPrefix peer subnet) h).dag.dagPrefixes := by
    simp only [s,announcedOnce,first]
    rfl
  have seen : s.dag.dagPrefixes.find? subnet = some n := map ▸ finds
  have still : ¬Known subnet s := by
    rw [Known,PrefixMap.subscriptFound seen,cell,map,forgot]
    decide
  have kept := addPrefixUpward peer iface subnet h
  have heeds : s.dag.mIgnorePio = h.dag.mIgnorePio := congrArg (fun c => c.1.mIgnorePio) kept.common
  have asked : (after (addPrefix peer iface subnet) s).dag.daoNeeded = true := by
    have second : after (addPrefix peer iface subnet) s = after (learnPrefix peer subnet) s := by
      simp only [after,addPrefixIgnored peer iface subnet (heeds.trans ignores)]
    rw [second]
    exact (learnPrefixForgets peer subnet still).2
  have silent : (after (addPrefix peer iface subnet) s).dag.daoNeeded = false := (noOp false).daoNeeded
  exact absurd (asked.symm.trans silent) (by decide)

theorem reannounceNoOp (found : FindsAgain peer iface subnet h) :
    ReannounceNoOp peer iface subnet h ↔ h.dag.mIgnorePio = true ∧ Known subnet h :=
  ⟨fun noOp => ⟨noOpIgnores noOp,noOpKnown found noOp⟩,fun ⟨ignores,known⟩ => knownNoOp found ignores known⟩

end Twice

/-- A node that has given itself the prefix and takes no addresses from others. -/
def selfAnnounced : Host :=
  {(default : Host) with
    dag := {(default : DagNetwork) with
      mIgnorePio := true
      dagPrefixes := ((PrefixMap.subscript .empty (learnt 64)).1.write 0 fun n => n.setPrefix (learnt 64)).write 0
        PrefixNode.markInstalled}}

theorem reannounceNoOpOwn : ReannounceNoOp In6Addr.zero linkTwo (learnt 64) selfAnnounced :=
  (reannounceNoOp (by unfold FindsAgain; decide)).mpr ⟨rfl,by decide⟩

theorem reannounceConfigures : ¬∀ (peer : In6Addr) (iface : NetworkInterface) (subnet : IpSubnet) (h : Host),
    FindsAgain peer iface subnet h → ReannounceNoOp peer iface subnet h := by
  intro claim
  have ignores := noOpIgnores (claim In6Addr.zero linkTwo (learnt 64) default (by unfold FindsAgain; decide))
  contradiction

end Host
end Unstrung
