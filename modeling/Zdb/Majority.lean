import Zdb.Election

/-! What the code takes for a majority. The member count passes through a
`uint8_t` before the threshold is computed from it, in `requestVote` for votes
and in `appendEntries` for stored entries; so two majorities share a member for
exactly the peer lists that are not longer than 255. -/

namespace Zdb.Raft

def Node.holders (peers : List PeerId) (selfId : PeerId) (n : Node) (i : ℕ) : Finset PeerId :=
  insert selfId ((otherPeers peers selfId).filter fun peer => i ≤ n.matchIndex peer).toFinset

theorem otherPeers_nodup (peers : List PeerId) (selfId : PeerId) :
    (otherPeers peers selfId).Nodup := List.nodup_dedup _

theorem Node.card_holders (peers : List PeerId) (selfId : PeerId) (n : Node) (i : ℕ) :
    (n.holders peers selfId i).card = n.matchCount peers selfId i := by
  rw [Node.holders, Finset.card_insert_of_notMem, List.toFinset_card_of_nodup,
    ← List.countP_eq_length_filter, Node.matchCount, Nat.add_comm]
  · exact (otherPeers_nodup peers selfId).filter _
  · simp [mem_otherPeers]

/-- Node `selfId` takes these members for a majority: its own vote and those of
at least one peer, or itself and the peers its commit scan counts. -/
inductive Accepted (peers : List PeerId) (selfId : PeerId) : Finset PeerId → Prop
  | votes (granted : Finset PeerId) (others : ∀ p ∈ granted, p ∈ otherPeers peers selfId)
      (some : granted.Nonempty) (enough : majority peers ≤ 1 + granted.card) :
      Accepted peers selfId (insert selfId granted)
  | stored (n : Node) (i : ℕ) (enough : majority peers ≤ n.matchCount peers selfId i) :
      Accepted peers selfId (n.holders peers selfId i)

theorem Accepted.majority_le {peers : List PeerId} {selfId : PeerId} {members : Finset PeerId}
    (accepted : Accepted peers selfId members) : majority peers ≤ members.card := by
  cases accepted with
  | votes granted others some enough =>
    have apart : selfId ∉ granted := fun own => (mem_otherPeers.mp (others selfId own)).2 rfl
    rw [Finset.card_insert_of_notMem apart]
    omega
  | stored n i enough => rwa [Node.card_holders]

theorem Accepted.subset {peers : List PeerId} {selfId : PeerId} {members : Finset PeerId}
    (accepted : Accepted peers selfId members) (own : selfId ∈ peers) :
    members ⊆ peers.toFinset := by
  intro p inside
  rw [List.mem_toFinset]
  cases accepted with
  | votes granted others =>
    rcases Finset.mem_insert.mp inside with rfl | other
    · exact own
    · exact (mem_otherPeers.mp (others p other)).1
  | stored n i =>
    rcases Finset.mem_insert.mp inside with rfl | other
    · exact own
    · exact (mem_otherPeers.mp (List.mem_of_mem_filter (List.mem_toFinset.mp other))).1

theorem accepted_of_subset {peers : List PeerId} {selfId : PeerId} {members : Finset PeerId}
    (own : selfId ∈ members) (inside : members ⊆ peers.toFinset) (two : 2 ≤ members.card)
    (enough : majority peers ≤ members.card) : Accepted peers selfId members := by
  have count := Finset.card_erase_of_mem own
  rw [← Finset.insert_erase own]
  refine .votes _ (fun p other => ?_) (Finset.card_pos.mp (by omega)) (by omega)
  obtain ⟨apart, among⟩ := Finset.mem_erase.mp other
  exact mem_otherPeers.mpr ⟨List.mem_toFinset.mp (inside among), apart⟩

theorem length_lt_two_majority {peers : List PeerId} (nonempty : peers ≠ []) :
    peers.length < 2 * majority peers ↔ peers.length ≤ 255 := by
  have pos := List.length_pos_iff.mpr nonempty
  rw [majority, clusterSize]
  omega

theorem card_take_toFinset {members : List PeerId} (distinct : members.Nodup) {k : ℕ}
    (long : k ≤ members.length) : (members.take k).toFinset.card = k := by
  rw [List.toFinset_card_of_nodup (distinct.sublist (List.take_sublist _ _)),
    List.length_take_of_le long]

/-- Any two sets of members that nodes of a cluster take for a majority share a
member, if and only if the cluster has at most 255 nodes. -/
theorem majorities_meet_iff {peers : List PeerId} (distinct : peers.Nodup)
    (nonempty : peers ≠ []) :
    (∀ u ∈ peers, ∀ v ∈ peers, ∀ A B, Accepted peers u A → Accepted peers v B →
      (A ∩ B).Nonempty) ↔ peers.length ≤ 255 := by
  rw [← length_lt_two_majority nonempty]
  constructor
  · intro meet
    by_contra small
    have large : 256 ≤ peers.length := by
      have := mt (length_lt_two_majority nonempty).mpr small
      omega
    have threshold : majority peers ≤ 128 := by
      rw [majority, clusterSize]
      omega
    have first := card_take_toFinset distinct (k := 128) (by omega)
    have second := card_take_toFinset (distinct.sublist (List.drop_sublist 128 _)) (k := 128)
      (by rw [List.length_drop]; omega)
    obtain ⟨u, inA⟩ := Finset.card_pos.mp (show 0 < _ by rw [first]; omega)
    obtain ⟨v, inB⟩ := Finset.card_pos.mp (show 0 < _ by rw [second]; omega)
    have insideA : (peers.take 128).toFinset ⊆ peers.toFinset := fun p among =>
      List.mem_toFinset.mpr (List.mem_of_mem_take (List.mem_toFinset.mp among))
    have insideB : ((peers.drop 128).take 128).toFinset ⊆ peers.toFinset := fun p among =>
      List.mem_toFinset.mpr
        (List.mem_of_mem_drop (List.mem_of_mem_take (List.mem_toFinset.mp among)))
    obtain ⟨p, both⟩ := meet u (List.mem_toFinset.mp (insideA inA)) v
      (List.mem_toFinset.mp (insideB inB)) _ _
      (accepted_of_subset inA insideA (by omega) (by omega))
      (accepted_of_subset inB insideB (by omega) (by omega))
    obtain ⟨inFirst, inSecond⟩ := Finset.mem_inter.mp both
    rw [List.mem_toFinset] at inFirst inSecond
    rw [← List.take_append_drop 128 peers] at distinct
    exact List.disjoint_of_nodup_append distinct inFirst (List.mem_of_mem_take inSecond)
  · intro many u memberU v memberV A B acceptedA acceptedB
    have total := Finset.card_le_card
      (Finset.union_subset (acceptedA.subset memberU) (acceptedB.subset memberV))
    rw [List.toFinset_card_of_nodup distinct] at total
    have count := Finset.card_union_add_card_inter A B
    have enoughA := acceptedA.majority_le
    have enoughB := acceptedB.majority_le
    exact Finset.card_pos.mp (by omega)

theorem majorities_meet_three : ["a", "b", "c"].Nodup ∧ ["a", "b", "c"] ≠ [] ∧
    ((∀ u ∈ ["a", "b", "c"], ∀ v ∈ ["a", "b", "c"], ∀ A B, Accepted ["a", "b", "c"] u A →
      Accepted ["a", "b", "c"] v B → (A ∩ B).Nonempty) ↔ ["a", "b", "c"].length ≤ 255) :=
  ⟨by decide, by decide, majorities_meet_iff (by decide) (by decide)⟩

def manyPeers : List PeerId := (List.range 256).map fun k => String.ofList (List.replicate k 'p')

theorem manyPeers_nodup : manyPeers.Nodup := by
  refine List.Nodup.map (fun j k same => ?_) List.nodup_range
  have lengths := congrArg List.length (String.ofList_injective same)
  simpa using lengths

/-- With 256 peers `clusterSize` is 0 and the threshold is 1, so two candidates win
with the vote of one peer each. -/
theorem majorities_disjoint : manyPeers.Nodup ∧ manyPeers ≠ [] ∧
    "p" ∈ manyPeers ∧ "pp" ∈ manyPeers ∧
    Accepted manyPeers "p" {"p", "ppp"} ∧ Accepted manyPeers "pp" {"pp", "pppp"} ∧
    ¬ (({"p", "ppp"} : Finset PeerId) ∩ {"pp", "pppp"}).Nonempty := by
  have member : ∀ k < 256, String.ofList (List.replicate k 'p') ∈ manyPeers :=
    fun k small => List.mem_map.mpr ⟨k, List.mem_range.mpr small, rfl⟩
  have threshold : majority manyPeers = 1 := by simp [majority, clusterSize, manyPeers]
  have first : "p" ∈ manyPeers := member 1 (by decide)
  have second : "pp" ∈ manyPeers := member 2 (by decide)
  have third : "ppp" ∈ manyPeers := member 3 (by decide)
  have fourth : "pppp" ∈ manyPeers := member 4 (by decide)
  refine ⟨manyPeers_nodup, List.ne_nil_of_mem first, first, second, ?_, ?_, by decide⟩
  · refine accepted_of_subset (by decide) ?_ (by decide) (by rw [threshold]; decide)
    simp [Finset.insert_subset_iff, first, third]
  · refine accepted_of_subset (by decide) ?_ (by decide) (by rw [threshold]; decide)
    simp [Finset.insert_subset_iff, second, fourth]

end Zdb.Raft
