import PayrollSeal.Proofs.Merkle.Soundness
import PayrollSeal.Proofs.Statement.Encodable
import PayrollSeal.Proofs.Statement.Fields

/-!
# What the root of a statement binds

The leaves of a statement hold all of its fields but the versions
(`Statement.withVersions_eq_of_agreesOn`), so statements with one root differ in nothing else.
-/

namespace PayrollSeal

namespace Statement

/-- A statement with other versions. -/
def withVersions (statement : Statement) (versions : Versions) : Statement :=
  match statement with
  | payPeriod doc => payPeriod { doc with versions }
  | summary doc => summary { doc with versions }

/-- The versions of a statement leave no trace in its leaves. -/
theorem leafBytes_withVersions (statement : Statement) (versions : Versions) (leaf : Leaf) :
    (statement.withVersions versions).leafBytes leaf = statement.leafBytes leaf := by
  cases statement <;> rfl

theorem root_withVersions (statement : Statement) (versions : Versions) :
    (statement.withVersions versions).root = statement.root := by
  unfold root leafHashes leafHash
  simp only [leafBytes_withVersions]

/-- The leaves hold all fields but the versions: statements that agree on every leaf differ in nothing
else. -/
theorem withVersions_eq_of_agreesOn {a b : Statement} (h : ∀ leaf, a.AgreesOn leaf b) :
    a.withVersions b.versions = b := by
  have hbinding := h .binding
  have hamounts := h .amounts
  have hprovenance := h .provenance
  cases a <;> cases b <;> first | exact hbinding.elim | skip
  case payPeriod.payPeriod a b =>
    obtain ⟨hagreement, hepoch, hworker, hemployer⟩ := hbinding
    obtain ⟨-, -, hcurrency, hunits⟩ := hamounts
    obtain ⟨-, -, hinputs, hreceipt, haudit, htime⟩ := hprovenance
    cases b
    rw [withVersions, payPeriod.injEq, PayPeriod.mk.injEq]
    exact ⟨rfl, hagreement, hepoch, hworker, hemployer, hcurrency, hunits, hinputs, hreceipt,
      haudit, htime⟩
  case summary.summary a b =>
    obtain ⟨hagreement, hkind, hstart, hstop, hworker, hemployer⟩ := hbinding
    obtain ⟨-, -, hcurrency, htotals⟩ := hamounts
    obtain ⟨-, -, hinputs, haudit⟩ := hprovenance
    -- the period comes back from its kind in every leaf and its markers in the first
    have hperiod : Period.mk a.period.kind a.period.start a.period.stop =
        Period.mk b.period.kind b.period.start b.period.stop := by
      rw [hkind, hstart, hstop]
    cases b
    rw [withVersions, summary.injEq, Summary.mk.injEq]
    exact ⟨rfl, hagreement, hperiod, hworker, hemployer, hcurrency, htotals, hinputs, haudit⟩

/-- Statements whose leaves have the same bytes agree on everything but the versions. -/
theorem withVersions_eq_of_hasLeaves {a b : Statement} {bytes : Leaf → Bytes}
    (ha : a.HasLeaves bytes) (hb : b.HasLeaves bytes) : a.withVersions b.versions = b := by
  apply withVersions_eq_of_agreesOn
  intro leaf
  have hboth := (Object.prefix_iff_of_ofLayout_eq_ok (ha leaf) (hb leaf)).mp (List.prefix_refl _)
  exact (chunks_leafLayout_prefix_iff.mp hboth).2

/-- Equal roots have leaves with equal bytes. -/
theorem bytes_eq_of_root_eq {messages : List Bytes} (hfree : CollisionFree messages)
    {a b : Statement} {x y : Leaf → Bytes} (ha : a.HasLeaves x) (hb : b.HasLeaves y)
    (hma : a.messages ⊆ messages) (hmb : b.messages ⊆ messages) (h : a.root = b.root) : x = y := by
  rw [ha.root_eq, hb.root_eq, Except.ok.injEq] at h
  have hlist := Merkle.top_inj hfree _ _ (List.Subset.trans ha.treeMessages_subset hma)
    (List.Subset.trans hb.treeMessages_subset hmb) rfl h
  funext leaf
  have hhash : Domain.leaf.hash (x leaf) = Domain.leaf.hash (y leaf) := by
    rw [← LeafHashes.get_ofBytes, ← LeafHashes.get_ofBytes, LeafHashes.toList_inj.mp hlist]
  exact (hfree.hash_inj (hma (ha.message_mem leaf)) (hmb (hb.message_mem leaf)) hhash).2

/-- Statements have one root exactly if they agree on everything but the versions, unless two of
the messages that are hashed for the roots collide. -/
theorem root_eq_iff {a b : Statement} {r s : Digest} (ha : a.root = .ok r) (hb : b.root = .ok s) :
    (a.withVersions b.versions = b → r = s) ∧
      (CollisionFree (a.messages ++ b.messages) → r = s → a.withVersions b.versions = b) := by
  refine ⟨fun h => ?_, fun hfree h => ?_⟩
  · rw [← h, root_withVersions, ha] at hb
    exact Except.ok.inj hb
  · obtain ⟨x, hx⟩ := exists_hasLeaves_of_root_eq_ok ha
    obtain ⟨y, hy⟩ := exists_hasLeaves_of_root_eq_ok hb
    have hroot : a.root = b.root := by rw [ha, hb, h]
    obtain rfl := bytes_eq_of_root_eq hfree hx hy (List.subset_append_left _ _)
      (List.subset_append_right _ _) hroot
    exact withVersions_eq_of_hasLeaves hx hy

/-- The roots of the reference pay period and of one with another time are different. -/
theorem reference_root_ne_of_timeHash_changed :
    (payPeriod Reference.payPeriod).root ≠
      (payPeriod { Reference.payPeriod with timeHash := Reference.agreement }).root := by
  have ha : (payPeriod Reference.payPeriod).HasLeaves _ := hasLeaves_of_fits (by decide +kernel)
  have hb : (payPeriod { Reference.payPeriod with timeHash := Reference.agreement }).HasLeaves _ :=
    hasLeaves_of_fits (by decide +kernel)
  have hfree : CollisionFree ((payPeriod Reference.payPeriod).messages ++
      (payPeriod { Reference.payPeriod with timeHash := Reference.agreement }).messages) := by
    rw [ha.messages_eq, hb.messages_eq, LeafHashes.toList, LeafHashes.toList,
      Merkle.treeMessages_three, Merkle.treeMessages_three]
    decide +kernel
  intro h
  rw [ha.root_eq, hb.root_eq, Except.ok.injEq] at h
  have hsame := (root_eq_iff ha.root_eq hb.root_eq).2 hfree h
  exact absurd hsame (by decide +kernel)

end Statement

end PayrollSeal
