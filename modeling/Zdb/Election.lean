import Mathlib.Data.Finset.Card
import Zdb.History
import Zdb.TermLog

/-! Election safety. Every node votes at most once in a term, also across
restarts; a candidate counts every peer at most once, because a peer's thread
asks once in a term and takes one answer; so a leader has the votes of a
majority, and two leaders of one term would share a voter. -/

namespace Zdb.Raft
open TermLog LabelledRun

/-- The sets the code accepts as a majority. -/
def quorums (m : Membership) : QuorumSystem PeerId where
  IsQuorum voters := ∃ members : Finset PeerId, members ⊆ m.peers.toFinset ∧
    majority m.peers ≤ members.card ∧ ∀ v ∈ members, v ∈ voters
  meet := by
    rintro first second ⟨F, insideF, manyF, allF⟩ ⟨G, insideG, manyG, allG⟩
    have total : (F ∪ G).card ≤ m.peers.length :=
      (Finset.card_le_card (Finset.union_subset insideF insideG)).trans
        (List.toFinset_card_le m.peers)
    have count := Finset.card_union_add_card_inter F G
    have size := m.size_le
    have shared : 0 < (F ∩ G).card := by
      rw [majority, clusterSize] at manyF manyG
      omega
    obtain ⟨v, both⟩ := Finset.card_pos.mp shared
    rw [Finset.mem_inter] at both
    exact ⟨v, allF v both.1, allG v both.2⟩

theorem mem_otherPeers {peers : List PeerId} {v p : PeerId} :
    p ∈ otherPeers peers v ↔ p ∈ peers ∧ p ≠ v := by
  simp [otherPeers]

structure History.Extends (h k : History) : Prop where
  ballot : ∀ v T c, h.ballot v T = some c → k.ballot v T = some c
  leader : ∀ T c, h.leader T = some c → k.leader T = some c

structure Campaigning (peers : List PeerId) (h : History) (v : PeerId) (n : Node) : Prop where
  ballot : h.ballot v n.currentTerm = n.votedFor
  ballot_le : ∀ T c, h.ballot v T = some c → T ≤ n.currentTerm
  stands : n.role = .candidate → n.votedFor = some v ∧ n.requestVoteArg.candidateId = v ∧
    n.requestVoteArg.term = n.currentTerm ∧ h.leader n.currentTerm ≠ some v
  calling : ∀ p call, n.requestVoteThread p = .calling call →
    call.callee = p ∧ call.caller = v ∧ p ∈ otherPeers peers v ∧ call.arg.term ≤ n.currentTerm ∧
      (call.arg.term = n.currentTerm → n.shouldStartElection p = false)
  counted : n.role = .candidate → ∃ voters : Finset PeerId,
    n.votesGranted = voters.card + 1 ∧ ∀ p ∈ voters, p ∈ otherPeers peers v ∧
      h.ballot p n.currentTerm = some v ∧ n.shouldStartElection p = false ∧
      ∀ call, n.requestVoteThread p = .calling call → call.arg.term ≠ n.currentTerm
  leads : n.role = .leader → h.leader n.currentTerm = some v

structure Electing (m : Membership) (s : Cluster) (h : History) : Prop where
  node : ∀ v, Campaigning m.peers h v (s.nodes v)
  asked : ∀ c ∈ s.network.voteCalls, c.arg.candidateId = c.caller ∧
    c.callee ∈ otherPeers m.peers c.caller ∧ h.ballot c.caller c.arg.term = some c.caller
  granted : ∀ a ∈ s.network.voteAnswers, a.reply.voteGranted = true →
    h.ballot a.call.callee a.call.arg.term = some a.call.caller
  elected : ∀ T c, h.leader T = some c →
    (quorums m).IsQuorum {v | h.ballot v T = some c} ∧ h.ballot c T = some c

namespace Move
variable {peers : List PeerId} {net : Network} {v : PeerId} {n n' : Node} {a : Action}
  {out : Output} (move : Move peers net v n a n' out)
include move

theorem term_le : n.currentTerm ≤ n'.currentTerm := by
  cases move with
  | adopt a T control t r out later => exact later.le
  | campaign => exact Nat.le_succ _
  | grant k call control found here current => exact current
  | accept k call control d out found here current => exact current
  | install k call control found here current => exact current
  | reboot a T control current => exact current
  | deliverReturn a d caller delivers => cases caller <;> exact le_rfl
  | _ => exact le_rfl

theorem vote_kept {c : PeerId} (same : n'.currentTerm = n.currentTerm)
    (voted : n.votedFor = some c) : n'.votedFor = some c := by
  cases move with
  | adopt a T control t r out later => exact absurd same later.ne'
  | campaign => exact absurd same (Nat.succ_ne_self _)
  | grant k call control found here current free =>
    replace same : call.arg.term = n.currentTerm := same
    rw [Node.voteIn_same same.le, voted] at free
    rcases free with none | own
    · contradiction
    · exact own.symm
  | accept k call control d out found here current =>
    replace same : call.arg.term = n.currentTerm := same
    exact (Node.voteIn_same same.le).trans voted
  | install k call control found here current =>
    replace same : call.arg.term = n.currentTerm := same
    exact (Node.voteIn_same same.le).trans voted
  | reboot a T control current =>
    replace same : T = n.currentTerm := same
    exact (Node.voteIn_same same.le).trans voted
  | deliverReturn a d caller delivers => cases caller <;> exact voted
  | _ => exact voted

theorem leader_cases (leads : n'.role = .leader) : n'.currentTerm = n.currentTerm ∧
    (n.role = .leader ∨ ∃ peer call answer, n.requestVoteThread peer = .calling call ∧
      answer ∈ net.voteAnswers ∧ answer.call = call ∧ n.role = .candidate ∧
      answer.reply.voteGranted = true ∧ call.arg.term = n.currentTerm ∧
      majority peers ≤ n.votesGranted + 1) := by
  cases move with
  | adopt => cases leads
  | campaign => cases leads
  | grant => cases leads
  | accept => cases leads
  | reboot => cases leads
  | elect peer k call answer control at_ answered own candidate granted current enough =>
    exact ⟨rfl, Or.inr ⟨peer, call, answer, at_, answered, own, candidate, granted, current,
      enough⟩⟩
  | install k call control found here current =>
    rcases lt_or_eq_of_le current with later | same
    · simp [Node.roleIn_later later] at leads
    · refine ⟨same.symm, Or.inl ?_⟩
      simpa [Node.roleIn_same same.ge] using leads
  | deliverReturn a d caller delivers => cases caller <;> exact ⟨rfl, Or.inl leads⟩
  | _ => exact ⟨rfl, Or.inl leads⟩

theorem requestVote_out {c : Call RequestVoteArg} (sent : out = .requestVote c) :
    c.caller = v ∧ c.callee ∈ otherPeers peers v ∧ c.arg = n.requestVoteArg ∧
      n.role = .candidate ∧ n'.currentTerm = n.currentTerm := by
  cases move with
  | ask peer other at_ candidate =>
    cases sent
    exact ⟨rfl, other, rfl, candidate, rfl⟩
  | quiet a control t r out idles hears rejects => subst sent; exact rejects.elim
  | adopt a T control t r out later idles hears rejects => subst sent; exact rejects.elim
  | accept k call control d out found here current clear accepts success follows =>
    cases follows <;> cases sent
  | deliverReturn a d caller delivers => cases caller <;> cases sent
  | _ => cases sent

theorem granted_out {x : Answer RequestVoteArg RequestVoteReply}
    (sent : out = .requestVoteAnswer x) (granted : x.reply.voteGranted = true) :
    x.call ∈ net.voteCalls ∧ x.call.callee = v ∧ n'.currentTerm = x.call.arg.term ∧
      n'.votedFor = some x.call.arg.candidateId := by
  cases move with
  | grant k call control found here =>
    cases sent
    exact ⟨List.mem_of_getElem? found, here, rfl, rfl⟩
  | quiet a control t r out idles hears rejects =>
    subst sent
    rw [Output.Rejects, granted] at rejects
    contradiction
  | adopt a T control t r out later idles hears rejects =>
    subst sent
    rw [Output.Rejects, granted] at rejects
    contradiction
  | accept k call control d out found here current clear accepts success follows =>
    cases follows <;> cases sent
  | deliverReturn a d caller delivers => cases caller <;> cases sent
  | _ => cases sent

end Move

section Record
variable {peers : List PeerId} {h : History} {u v : PeerId} {n n' : Node} {out : Output}

theorem Campaigning.record_ballot_le (hc : Campaigning peers h v n)
    (le : n.currentTerm ≤ n'.currentTerm) (T : ℕ) (c : PeerId)
    (voted : (h.record v n' out).ballot v T = some c) : T ≤ n'.currentTerm := by
  by_cases now : T = n'.currentTerm
  · exact now.le
  · rw [History.record_ballot_ne (Or.inr now)] at voted
    exact (hc.ballot_le T c voted).trans le

theorem Campaigning.follower (hc : Campaigning peers h v n) (le : n.currentTerm ≤ n'.currentTerm)
    (role : n'.role = .follower)
    (flags : ∀ p, n.shouldStartElection p = false → n'.shouldStartElection p = false)
    (hears : Hears n.requestVoteThread n'.requestVoteThread) :
    Campaigning peers (h.record v n' out) v n' where
  ballot := History.record_ballot_self
  ballot_le := hc.record_ballot_le le
  stands := by simp [role]
  counted := by simp [role]
  leads := by simp [role]
  calling := by
    intro p call at_
    rcases hears p with same | gone
    · rw [same] at at_
      obtain ⟨callee, caller, other, early, flag⟩ := hc.calling p call at_
      refine ⟨callee, caller, other, early.trans le, fun now => flags p (flag ?_)⟩
      omega
    · rw [gone] at at_
      contradiction

theorem Campaigning.calm (hc : Campaigning peers h v n)
    (past : h.Extends (h.record v n' out)) (term : n'.currentTerm = n.currentTerm)
    (role : n'.role = n.role) (vote : n'.votedFor = n.votedFor)
    (flags : n'.shouldStartElection = n.shouldStartElection)
    (votes : n'.votesGranted = n.votesGranted) (arg : n'.requestVoteArg = n.requestVoteArg)
    (hears : Hears n.requestVoteThread n'.requestVoteThread) :
    Campaigning peers (h.record v n' out) v n' where
  ballot := History.record_ballot_self
  ballot_le := hc.record_ballot_le term.ge
  stands := by
    intro candidate
    have aside : n'.role ≠ .leader := by simp [candidate]
    rw [History.record_leader_ne (Or.inl aside), vote, arg, term]
    exact hc.stands (role ▸ candidate)
  counted := by
    intro candidate
    obtain ⟨voters, count, all⟩ := hc.counted (role ▸ candidate)
    refine ⟨voters, votes ▸ count, fun p hp => ?_⟩
    obtain ⟨other, voted, flag, heard⟩ := all p hp
    rw [term, flags]
    refine ⟨other, past.ballot p _ v voted, flag, fun call at_ => ?_⟩
    rcases hears p with same | gone
    · exact heard call (same ▸ at_)
    · rw [gone] at at_
      contradiction
  leads := fun leads => History.record_leader_of_leader leads
  calling := by
    intro p call at_
    rcases hears p with same | gone
    · rw [same] at at_
      rw [term, flags]
      exact hc.calling p call at_
    · rw [gone] at at_
      contradiction

theorem Campaigning.other (hc : Campaigning peers h u n) (apart : u ≠ v)
    (past : h.Extends (h.record v n' out)) : Campaigning peers (h.record v n' out) u n where
  ballot := by rw [History.record_ballot_ne (Or.inl apart), hc.ballot]
  ballot_le := by
    intro T c voted
    rw [History.record_ballot_ne (Or.inl apart)] at voted
    exact hc.ballot_le T c voted
  stands := by
    intro candidate
    obtain ⟨vote, arg, term, lost⟩ := hc.stands candidate
    refine ⟨vote, arg, term, ?_⟩
    simp only [History.record]
    split_ifs
    · by_cases now : n.currentTerm = n'.currentTerm
      · simp [now, apart.symm]
      · simpa [now] using lost
    · exact lost
  counted := by
    intro candidate
    obtain ⟨voters, count, all⟩ := hc.counted candidate
    refine ⟨voters, count, fun p hp => ?_⟩
    obtain ⟨other, voted, rest⟩ := all p hp
    exact ⟨other, past.ballot p _ u voted, rest⟩
  leads := fun leads => past.leader _ _ (hc.leads leads)
  calling := hc.calling

end Record

namespace Electing
variable {m : Membership} {s : Cluster} {h : History} {v : PeerId} {n' : Node} {a : Action}
  {out : Output}

theorem won (inv : Electing m s h) (member : v ∈ m.peers) {peer : PeerId}
    {call : Call RequestVoteArg} {answer : Answer RequestVoteArg RequestVoteReply}
    (at_ : (s.nodes v).requestVoteThread peer = .calling call)
    (answered : answer ∈ s.network.voteAnswers) (own : answer.call = call)
    (candidate : (s.nodes v).role = .candidate) (granted : answer.reply.voteGranted = true)
    (current : call.arg.term = (s.nodes v).currentTerm)
    (enough : majority m.peers ≤ (s.nodes v).votesGranted + 1) :
    (quorums m).IsQuorum {u | h.ballot u (s.nodes v).currentTerm = some v} := by
  have hc := inv.node v
  obtain ⟨voters, count, all⟩ := hc.counted candidate
  obtain ⟨callee, caller, other, _, _⟩ := hc.calling peer call at_
  have fresh : peer ∉ voters := fun hp => (all peer hp).2.2.2 call at_ current
  have self : v ∉ insert peer voters := by
    rw [Finset.mem_insert, not_or]
    refine ⟨(mem_otherPeers.mp other).2.symm, fun hv => ?_⟩
    exact (mem_otherPeers.mp (all v hv).1).2 rfl
  have said := inv.granted answer answered granted
  rw [own, callee, caller, current] at said
  have inside : ∀ p, p ∈ otherPeers m.peers v → p ∈ m.peers.toFinset := by
    intro p hp
    exact List.mem_toFinset.mpr (mem_otherPeers.mp hp).1
  refine ⟨insert v (insert peer voters), ?_, ?_, ?_⟩
  · intro p hp
    simp only [Finset.mem_insert] at hp
    rcases hp with rfl | rfl | hp
    · exact List.mem_toFinset.mpr member
    · exact inside _ other
    · exact inside _ (all p hp).1
  · rw [Finset.card_insert_of_notMem self, Finset.card_insert_of_notMem fresh]
    omega
  · intro p hp
    simp only [Finset.mem_insert] at hp
    rcases hp with rfl | rfl | hp
    · exact hc.ballot.trans (hc.stands candidate).1
    · exact said
    · exact (all p hp).2.1

theorem quorum_unique {T : ℕ} {c d : PeerId}
    (first : (quorums m).IsQuorum {u | h.ballot u T = some c})
    (second : (quorums m).IsQuorum {u | h.ballot u T = some d}) : c = d := by
  obtain ⟨u, forC, forD⟩ := (quorums m).meet _ _ first second
  exact Option.some.inj (forC.symm.trans forD)

theorem leader_step (inv : Electing m s h) (member : v ∈ m.peers)
    (move : Move m.peers s.network v (s.nodes v) a n' out) (leads : n'.role = .leader) :
    h.leader n'.currentTerm = some v ∨
      (h.leader n'.currentTerm = none ∧ (s.nodes v).role = .candidate ∧
        h.ballot v n'.currentTerm = some v ∧
        (quorums m).IsQuorum {u | h.ballot u n'.currentTerm = some v}) := by
  obtain ⟨term, led | ⟨peer, call, answer, at_, answered, own, candidate, granted, current,
    enough⟩⟩ := move.leader_cases leads
  · exact Or.inl (term ▸ (inv.node v).leads led)
  · have hc := inv.node v
    obtain ⟨vote, _, _, lost⟩ := hc.stands candidate
    have quorum := inv.won member at_ answered own candidate granted current enough
    rw [term]
    refine Or.inr ⟨?_, candidate, hc.ballot.trans vote, quorum⟩
    cases known : h.leader (s.nodes v).currentTerm with
    | none => rfl
    | some c =>
      obtain rfl := quorum_unique (inv.elected _ c known).1 quorum
      exact absurd known lost

theorem extends_record (inv : Electing m s h) (member : v ∈ m.peers)
    (move : Move m.peers s.network v (s.nodes v) a n' out) : h.Extends (h.record v n' out) where
  ballot := by
    intro u T c voted
    by_cases here : u = v ∧ T = n'.currentTerm
    · obtain ⟨rfl, rfl⟩ := here
      have hc := inv.node u
      have now : n'.currentTerm = (s.nodes u).currentTerm :=
        le_antisymm (hc.ballot_le _ c voted) move.term_le
      rw [History.record_ballot_self]
      refine move.vote_kept now ?_
      rw [← hc.ballot, ← now, voted]
    · rw [History.record_ballot_ne (by tauto), voted]
  leader := by
    intro T c led
    by_cases here : n'.role = .leader ∧ T = n'.currentTerm
    · obtain ⟨leads, rfl⟩ := here
      rw [History.record_leader_of_leader leads]
      rcases inv.leader_step member move leads with same | ⟨vacant, _⟩
      · exact same.symm.trans led
      · rw [vacant] at led
        contradiction
    · rw [History.record_leader_ne (by tauto), led]

theorem node_step (inv : Electing m s h) (member : v ∈ m.peers)
    (move : Move m.peers s.network v (s.nodes v) a n' out) :
    Campaigning m.peers (h.record v n' out) v n' := by
  have past := inv.extends_record member move
  have hc := inv.node v
  have le := move.term_le
  cases move with
  | quiet a control t r out idles hears rejects =>
    exact hc.calm past rfl rfl rfl rfl rfl rfl hears
  | adopt a T control t r out later idles hears rejects =>
    exact hc.follower le rfl (fun _ => id) hears
  | campaign control standing =>
    refine ⟨History.record_ballot_self, hc.record_ballot_le le, fun _ => ⟨rfl, rfl, rfl, ?_⟩,
      ?_, fun _ => ⟨∅, by simp⟩, by simp⟩
    · rw [History.record_leader_ne (Or.inl (by simp))]
      intro led
      exact Nat.not_succ_le_self _ (hc.ballot_le _ _ (inv.elected _ v led).2)
    · intro p call at_
      obtain ⟨callee, caller, other, early, _⟩ := hc.calling p call at_
      exact ⟨callee, caller, other, early.trans le, fun now => by simp at now; omega⟩
  | ask peer other at_ candidate flag =>
    obtain ⟨vote, name, term, lost⟩ := hc.stands candidate
    refine ⟨History.record_ballot_self, hc.record_ballot_le le, fun _ => ⟨vote, name, term, ?_⟩,
      ?_, fun _ => ?_, by simp [candidate]⟩
    · rwa [History.record_leader_ne (Or.inl (by simp [candidate]))]
    · intro p call calling
      by_cases same : p = peer
      · subst same
        simp only [Function.update_self, RequestVoteThread.calling.injEq] at calling ⊢
        subst calling
        exact ⟨rfl, rfl, other, term.le, fun _ => trivial⟩
      · simp only [Function.update_of_ne same] at calling ⊢
        exact hc.calling p call calling
    · obtain ⟨voters, count, all⟩ := hc.counted candidate
      refine ⟨voters, count, fun p hp => ?_⟩
      obtain ⟨inside, voted, down, heard⟩ := all p hp
      have same : p ≠ peer := by
        rintro rfl
        rw [flag] at down
        contradiction
      refine ⟨inside, past.ballot p _ v voted, ?_⟩
      simp only [Function.update_of_ne same]
      exact ⟨down, heard⟩
  | count peer k call answer at_ answered own candidate granted current few =>
    obtain ⟨vote, name, term, lost⟩ := hc.stands candidate
    obtain ⟨callee, caller, other, _, flag⟩ := hc.calling peer call at_
    have said := inv.granted answer answered granted
    rw [own, callee, caller, current] at said
    refine ⟨History.record_ballot_self, hc.record_ballot_le le, fun _ => ⟨vote, name, term, ?_⟩,
      ?_, fun _ => ?_, by simp [candidate]⟩
    · rwa [History.record_leader_ne (Or.inl (by simp [candidate]))]
    · intro p call' calling
      by_cases same : p = peer
      · subst same
        simp at calling
      · simp only [Function.update_of_ne same] at calling
        exact hc.calling p call' calling
    · obtain ⟨voters, count, all⟩ := hc.counted candidate
      have fresh : peer ∉ voters := fun hp => (all peer hp).2.2.2 call at_ current
      refine ⟨insert peer voters, by simp [Finset.card_insert_of_notMem fresh, count], ?_⟩
      intro p hp
      by_cases same : p = peer
      · subst same
        exact ⟨other, past.ballot p _ v said, flag current, by simp⟩
      · obtain ⟨inside, voted, down, heard⟩ := all p (Finset.mem_of_mem_insert_of_ne hp same)
        refine ⟨inside, past.ballot p _ v voted, down, ?_⟩
        simpa only [Function.update_of_ne same] using heard
  | elect peer k call answer control at_ answered own candidate granted current enough =>
    refine ⟨History.record_ballot_self, hc.record_ballot_le le, by simp, ?_, by simp,
      fun leads => History.record_leader_of_leader leads⟩
    intro p call' calling
    by_cases same : p = peer
    · subst same
      simp at calling
    · simp only [Function.update_of_ne same] at calling
      exact hc.calling p call' calling
  | grant => exact hc.follower le rfl (fun _ => id) (Hears.refl _)
  | accept => exact hc.follower le rfl (fun _ => id) (Hears.refl _)
  | install k call control found here current =>
    rcases lt_or_eq_of_le current with later | same
    · exact hc.follower le (Node.roleIn_later later) (fun _ => id) (Hears.refl _)
    · exact hc.calm past same.symm (Node.roleIn_same same.ge) (Node.voteIn_same same.ge) rfl rfl
        rfl (Hears.refl _)
  | reboot => exact hc.follower le rfl (fun _ _ => rfl) (fun _ => Or.inr rfl)
  | deliverReturn a d caller delivers =>
    cases caller <;> exact hc.calm past rfl rfl rfl rfl rfl rfl (Hears.refl _)
  | _ => exact hc.calm past rfl rfl rfl rfl rfl rfl (Hears.refl _)

theorem step (inv : Electing m s h) (member : v ∈ m.peers)
    (move : Move m.peers s.network v (s.nodes v) a n' out) :
    Electing m (s.update v n' out) (h.record v n' out) := by
  have past := inv.extends_record member move
  have mine := inv.node_step member move
  refine ⟨?_, ?_, ?_, ?_⟩
  · exact Cluster.forall_nodes_update mine fun u apart => (inv.node u).other apart past
  · intro c sent
    rcases Network.mem_voteCalls_emit sent with old | new
    · obtain ⟨name, other, self⟩ := inv.asked c old
      exact ⟨name, other, past.ballot _ _ _ self⟩
    · obtain ⟨caller, other, arg, candidate, _⟩ := move.requestVote_out new
      obtain ⟨vote, name, term, _⟩ := (inv.node v).stands candidate
      rw [caller, arg, name, term]
      exact ⟨rfl, other, past.ballot _ _ _ ((inv.node v).ballot.trans vote)⟩
  · intro x sent granted
    rcases Network.mem_voteAnswers_emit sent with old | new
    · exact past.ballot _ _ _ (inv.granted x old granted)
    · obtain ⟨asked, here, term, vote⟩ := move.granted_out new granted
      rw [here, ← term, History.record_ballot_self, vote, (inv.asked _ asked).1]
  · intro T c led
    have kept : ∀ d, (quorums m).IsQuorum {u | h.ballot u T = some d} →
        (quorums m).IsQuorum {u | (h.record v n' out).ballot u T = some d} := by
      rintro d ⟨members, inside, many, all⟩
      exact ⟨members, inside, many, fun u hu => past.ballot u T d (all u hu)⟩
    by_cases here : n'.role = .leader ∧ T = n'.currentTerm
    · obtain ⟨leads, rfl⟩ := here
      rw [History.record_leader_of_leader leads] at led
      obtain rfl := Option.some.inj led
      rcases inv.leader_step member move leads with old | ⟨_, _, self, quorum⟩
      · obtain ⟨quorum, self⟩ := inv.elected _ v old
        exact ⟨kept v quorum, past.ballot _ _ _ self⟩
      · exact ⟨kept v quorum, past.ballot _ _ _ self⟩
    · rw [History.record_leader_ne (by tauto)] at led
      obtain ⟨quorum, self⟩ := inv.elected T c led
      exact ⟨kept c quorum, past.ballot _ _ _ self⟩

theorem initial (m : Membership) : Electing m Cluster.initial {} := by
  constructor <;> simp [Cluster.initial]
  intro v
  constructor <;> simp [Node.boot, Node.readPersist]

end Electing

theorem Cluster.runHistory_electing {m : Membership} {actions : List Action} {s : Cluster}
    {h : History} (run : Cluster.runHistory m actions = some (s, h)) : Electing m s h :=
  Cluster.history_invariant (fun _ _ => True) (Electing m)
    (fun _ _ _ _ _ _ inv _ _ _ member move => inv.step member move) Cluster.initial_synced
    (Electing.initial m) (along_always _ _) run

/-- At most one leader in a term: not in one state, and not in two states of one
run. -/
theorem leader_of_term_unique {m : Membership} {first later : List Action} {s t : Cluster}
    (run : Cluster.run m first = some s) (rest : exec (Cluster.step m) s later = some t)
    {p q : PeerId} (leadsP : (s.nodes p).role = .leader) (leadsQ : (t.nodes q).role = .leader)
    (same : (s.nodes p).currentTerm = (t.nodes q).currentTerm) : p = q := by
  obtain ⟨h, runH⟩ := Cluster.exists_runHistory run
  obtain ⟨k, restK⟩ := Cluster.exists_history h rest
  have inv := Cluster.runHistory_electing runH
  have both : Electing m t k ∧ h.Extends k := by
    refine Cluster.history_invariant (fun _ _ => True)
      (fun s k => Electing m s k ∧ h.Extends k) ?_ (Cluster.run_synced run)
      ⟨inv, ⟨by simp, by simp⟩⟩ (along_always _ _) restK
    rintro s k a v n out ⟨now, past⟩ _ _ _ member move
    have more := now.extends_record member move
    exact ⟨now.step member move,
      ⟨fun v T c voted => more.ballot v T c (past.ballot v T c voted),
        fun T c led => more.leader T c (past.leader T c led)⟩⟩
  have ledP := both.2.leader _ p ((inv.node p).leads leadsP)
  have ledQ := (both.1.node q).leads leadsQ
  rw [same] at ledP
  exact Option.some.inj (ledP.symm.trans ledQ)

theorem leader_of_term_unique_three : ∃ s t,
    Cluster.run threePeers (winElection "a" "b" 0) = some s ∧
    exec (Cluster.step threePeers) s [.start "a" ⟨default, .noOp⟩] = some t ∧
    (s.nodes "a").role = .leader ∧ (t.nodes "a").role = .leader ∧
    (s.nodes "a").currentTerm = (t.nodes "a").currentTerm ∧ "a" = "a" := by
  obtain ⟨s, t, run, rest, leadsS, leadsT, same⟩ : ∃ s t,
      Cluster.run threePeers (winElection "a" "b" 0) = some s ∧
      exec (Cluster.step threePeers) s [.start "a" ⟨default, .noOp⟩] = some t ∧
      (s.nodes "a").role = .leader ∧ (t.nodes "a").role = .leader ∧
      (s.nodes "a").currentTerm = (t.nodes "a").currentTerm := by
    refine ⟨_, _, (Option.some_get (by decide +kernel)).symm,
      (Option.some_get (by decide +kernel)).symm, by decide +kernel, by decide +kernel,
      by decide +kernel⟩
  exact ⟨s, t, run, rest, leadsS, leadsT, same, leader_of_term_unique run rest leadsS leadsT same⟩

end Zdb.Raft
