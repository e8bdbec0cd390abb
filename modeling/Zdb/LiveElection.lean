import Mathlib.Data.Finset.Max
import Mathlib.Data.Finset.Lattice.Fold
import Mathlib.Data.Prod.Lex
import Zdb.LiveMajority

/-! A live majority can elect a leader. A leader of an earlier term than somebody
else's steps down when a candidate asks it for a vote; then the member with the most
recent log raises its term above all others and asks them one by one. -/

namespace Zdb.Raft
open LabelledRun LogReplication

namespace Node
variable {n : Node} (arg : RequestVoteArg)

theorem requestVoteHandler_later (live : n.killed = false) (later : n.currentTerm < arg.term) :
    (n.requestVoteHandler arg).1.role = .follower ∧
    (n.requestVoteHandler arg).1.currentTerm = arg.term ∧
    (n.requestVoteHandler arg).1.toStore = n.toStore := by
  rw [requestVoteHandler, if_neg (by simp [live]), if_neg (by omega)]
  simp only [becameFollower, if_pos later]
  split_ifs <;> exact ⟨rfl, rfl, rfl⟩

theorem requestVoteHandler_grants (live : n.killed = false) (later : n.currentTerm < arg.term)
    (recent : n.upToDate arg.lastLogIndex arg.lastLogTerm = true) :
    (n.requestVoteHandler arg).2 = ⟨true, arg.term⟩ := by
  rw [requestVoteHandler, if_neg (by simp [live]), if_neg (by omega)]
  simp only [becameFollower, if_pos later]
  refine congrArg Prod.snd (if_pos ?_)
  rw [Bool.and_eq_true]
  exact ⟨rfl, recent⟩

end Node

namespace Group
variable {m : Membership} {Q : Finset PeerId} {s : Cluster} {c p : PeerId}

theorem hang_up (group : Group m Q s) (member : c ∈ Q) (candidate : (s.nodes c).role = .candidate)
    (p : PeerId) : ∃ t, Reaches (Cluster.step m) (Acts Q) s t ∧
      (∀ u, u ≠ c → t.nodes u = s.nodes u) ∧
      t.nodes c = { s.nodes c with
        requestVoteThread := Function.update (s.nodes c).requestVoteThread p .waiting } := by
  cases at_ : (s.nodes c).requestVoteThread p with
  | waiting =>
    refine ⟨s, .refl s, fun _ _ => rfl, ?_⟩
    rw [← at_, Function.update_eq_self]
  | calling call =>
    have live := (group.alive c member).live
    have found : s.act m.peers (.requestVoteReply c p none) = some (c, { s.nodes c with
        requestVoteThread := Function.update (s.nodes c).requestVoteThread p .waiting },
        .nothing) := by
      simp [Cluster.act, at_, received, Node.requestVoteReply, live, candidate]
    exact ⟨_, group.act member found rfl, fun u apart => Cluster.update_nodes_ne _ _ _ apart,
      Cluster.update_nodes_self _ _ _ _⟩

theorem solicit (group : Group m Q s) (member : c ∈ Q) (member' : p ∈ Q) (apart : p ≠ c)
    (candidate : (s.nodes c).role = .candidate)
    (flag : (s.nodes c).shouldStartElection p = true) : ∃ t call,
      Reaches (Cluster.step m) (Acts Q) s t ∧
      call.arg = (s.nodes c).requestVoteArg ∧
      (∀ u, u ≠ c → u ≠ p → t.nodes u = s.nodes u) ∧
      t.nodes c = { s.nodes c with
        shouldStartElection := Function.update (s.nodes c).shouldStartElection p false
        requestVoteThread :=
          Function.update (s.nodes c).requestVoteThread p (.calling call) } ∧
      t.nodes p = ((s.nodes p).requestVoteHandler call.arg).1 ∧
      ⟨call, ((s.nodes p).requestVoteHandler call.arg).2⟩ ∈ t.network.voteAnswers := by
  obtain ⟨s₁, first, others, own⟩ := group.hang_up member candidate p
  have group₁ := group.reaches first
  have other : p ∈ otherPeers m.peers c := mem_otherPeers.mpr ⟨group.inside p member', apart⟩
  let call : Call RequestVoteArg :=
    ⟨s₁.network.voteCalls.length, c, p, (s.nodes c).requestVoteArg⟩
  let asking : Node := { s.nodes c with
    shouldStartElection := Function.update (s.nodes c).shouldStartElection p false
    requestVoteThread := Function.update (s.nodes c).requestVoteThread p (.calling call) }
  have asks : s₁.act m.peers (.requestVote c p) = some (c, asking, .requestVote call) := by
    simp [Cluster.act, other, own, Node.requestVote, (group.alive c member).live, candidate, flag,
      asking, call]
  have second := group₁.act member asks rfl
  have group₂ := group₁.reaches second
  have there : (s₁.update c asking (.requestVote call)).nodes p = s.nodes p := by
    rw [Cluster.update_nodes_ne _ _ _ apart, others p apart]
  have answers : (s₁.update c asking (.requestVote call)).act m.peers
      (.requestVoteHandler s₁.network.voteCalls.length) =
        some (p, ((s.nodes p).requestVoteHandler call.arg).1,
          .requestVoteAnswer ⟨call, ((s.nodes p).requestVoteHandler call.arg).2⟩) := by
    have found : (s₁.update c asking (.requestVote call)).network.voteCalls[
        s₁.network.voteCalls.length]? = some call := by
      simp [Network.emit]
    simp only [Cluster.act, found, Option.map_some]
    rw [show call.callee = p from rfl, there]
  refine ⟨_, call, (first.trans second).trans (group₂.act member' answers rfl), rfl, ?_, ?_, ?_, ?_⟩
  · intro u notC notP
    rw [Cluster.update_nodes_ne _ _ _ notP, Cluster.update_nodes_ne _ _ _ notC, others u notC]
  · rw [Cluster.update_nodes_ne _ _ _ apart.symm, Cluster.update_nodes_self]
  · rw [Cluster.update_nodes_self]
  · simp [Network.emit]

structure Stands (c : PeerId) (n : Node) : Prop where
  role : n.role = .candidate
  arg : n.requestVoteArg = ⟨c, n.currentTerm, n.mainLog.lastIndex, n.mainLog.lastTerm⟩
  votes : n.votesGranted = 1
  flags : ∀ p, n.shouldStartElection p = true

theorem campaign (group : Group m Q s) (member : c ∈ Q)
    (standing : (s.nodes c).role ≠ .leader) (T : ℕ) : ∃ t,
      Reaches (Cluster.step m) (Acts Q) s t ∧ (∀ u, u ≠ c → t.nodes u = s.nodes u) ∧
      (t.nodes c).toStore = (s.nodes c).toStore ∧ T < (t.nodes c).currentTerm ∧
      Stands c (t.nodes c) := by
  -- each timeout of the election timer raises the term by one
  have once : ∀ s, Group m Q s → (s.nodes c).role ≠ .leader → ∃ t,
      Reaches (Cluster.step m) (Acts Q) s t ∧ (∀ u, u ≠ c → t.nodes u = s.nodes u) ∧
      (t.nodes c).toStore = (s.nodes c).toStore ∧
      (t.nodes c).currentTerm = (s.nodes c).currentTerm + 1 ∧ Stands c (t.nodes c) := by
    intro s group standing
    have found : s.act m.peers (.initVote c true) =
        some (c, (s.nodes c).initVote c true, .nothing) := rfl
    have own : (s.nodes c).initVote c true = _ := if_neg (by simp [standing])
    refine ⟨_, group.act member found rfl, fun u apart => Cluster.update_nodes_ne _ _ _ apart, ?_⟩
    rw [Cluster.update_nodes_self, own]
    exact ⟨rfl, rfl, rfl, rfl, rfl, fun _ => rfl⟩
  induction T with
  | zero =>
    obtain ⟨t, run, others, store, term, stands⟩ := once s group standing
    exact ⟨t, run, others, store, by omega, stands⟩
  | succ T ih =>
    obtain ⟨t, run, others, store, above, stands⟩ := ih
    obtain ⟨t', run', others', store', term, stands'⟩ :=
      once t (group.reaches run) (by simp [stands.role])
    exact ⟨t', run.trans run', fun u apart => (others' u apart).trans (others u apart),
      store'.trans store, by omega, stands'⟩

theorem depose (group : Group m Q s) (member : c ∈ Q) (member' : p ∈ Q) (apart : p ≠ c)
    (standing : (s.nodes c).role ≠ .leader) : ∃ t,
      Reaches (Cluster.step m) (Acts Q) s t ∧ (t.nodes p).role = .follower ∧
      ∀ u, (t.nodes u).toStore = (s.nodes u).toStore := by
  obtain ⟨s₁, first, others₁, store₁, above, stands⟩ :=
    group.campaign member standing (s.nodes p).currentTerm
  obtain ⟨t, call, later, asked, others, own, there, -⟩ :=
    (group.reaches first).solicit member member' apart stands.role (stands.flags p)
  rw [others₁ p apart] at there
  obtain ⟨role, -, store⟩ := Node.requestVoteHandler_later call.arg
    (group.alive p member').live (by rw [asked, stands.arg]; exact above)
  refine ⟨t, first.trans later, by rw [there]; exact role, fun u => ?_⟩
  by_cases hc : u = c
  · subst hc
    rw [own]
    exact store₁
  by_cases hp : u = p
  · subst hp
    rw [there]
    exact store
  rw [others u hc hp, others₁ u hc]

structure Canvassing (m : Membership) (Q : Finset PeerId) (c : PeerId) (votes : ℕ)
    (pending : List PeerId) (s : Cluster) : Prop where
  group : Group m Q s
  member : c ∈ Q
  role : (s.nodes c).role = .candidate
  arg : (s.nodes c).requestVoteArg = ⟨c, (s.nodes c).currentTerm, (s.nodes c).mainLog.lastIndex,
    (s.nodes c).mainLog.lastTerm⟩
  votes_eq : (s.nodes c).votesGranted = votes
  members : ∀ p ∈ pending, p ∈ Q ∧ p ≠ c
  flags : ∀ p ∈ pending, (s.nodes c).shouldStartElection p = true
  behind : ∀ p ∈ pending, (s.nodes p).currentTerm < (s.nodes c).currentTerm
  recent : ∀ p ∈ pending, (s.nodes p).upToDate (s.nodes c).mainLog.lastIndex
    (s.nodes c).mainLog.lastTerm = true
  top : ∀ q ∈ Q, (s.nodes q).currentTerm ≤ (s.nodes c).currentTerm

theorem count_vote {n : Node} (peers : List PeerId) (p : PeerId) {arg : RequestVoteArg}
    (live : n.killed = false) (candidate : n.role = .candidate)
    (current : arg.term = n.currentTerm) :
    n.requestVoteReply peers p arg (some ⟨true, n.currentTerm⟩) =
      (let counted : Node := { n with
          requestVoteThread := Function.update n.requestVoteThread p .waiting
          votesGranted := n.votesGranted + 1 }
       if majority peers ≤ n.votesGranted + 1 then counted.becomeLeader else counted) := by
  simp [Node.requestVoteReply, live, candidate, Node.becameFollower, current]

theorem canvass_one {votes : ℕ} {rest : List PeerId}
    (canvassing : Canvassing m Q c votes (p :: rest) s) (fresh : p ∉ rest) : ∃ t,
      Reaches (Cluster.step m) (Acts Q) s t ∧
      (∀ q ∈ Q, (t.nodes q).currentTerm ≤ (t.nodes c).currentTerm) ∧
      ((t.nodes c).role = .leader ∨
        (¬ majority m.peers ≤ votes + 1 ∧ Canvassing m Q c (votes + 1) rest t)) := by
  obtain ⟨group, member, role, arg, votes_eq, members, flags, behind, recent, top⟩ := canvassing
  obtain ⟨member', apart⟩ := members p (by simp)
  obtain ⟨s₁, call, first, asked, others, own, there, answered⟩ :=
    group.solicit member member' apart role (flags p (by simp))
  have group₁ := group.reaches first
  have later := behind p (by simp)
  have live := (group.alive p member').live
  rw [asked, arg] at there answered
  rw [Node.requestVoteHandler_grants _ live later (recent p (by simp))] at answered
  obtain ⟨-, term, -⟩ := Node.requestVoteHandler_later ⟨c, (s.nodes c).currentTerm,
    (s.nodes c).mainLog.lastIndex, (s.nodes c).mainLog.lastTerm⟩ live later
  rw [← there] at term
  obtain ⟨k, found⟩ := List.mem_iff_getElem?.mp answered
  -- the candidate takes the answer
  have point : (s₁.nodes c).requestVoteThread p = .calling call := by rw [own]; simp
  have heard : received s₁.network.voteAnswers call (some k) =
      some (some ⟨true, (s₁.nodes c).currentTerm⟩) := by
    simp [received, found, own]
  have current : call.arg.term = (s₁.nodes c).currentTerm := by rw [asked, arg, own]
  have counted := count_vote m.peers p (group₁.alive c member).live (by rw [own]; exact role)
    current
  have found : s₁.act m.peers (.requestVoteReply c p (some k)) =
      some (c, (s₁.nodes c).requestVoteReply m.peers p call.arg
        (some ⟨true, (s₁.nodes c).currentTerm⟩), .nothing) := by
    simp [Cluster.act, point, heard]
  have votes₁ : (s₁.nodes c).votesGranted = votes := by rw [own]; exact votes_eq
  rw [counted, votes₁] at found
  have terms : ∀ n : Node, n.currentTerm = (s₁.nodes c).currentTerm → ∀ q ∈ Q,
      ((s₁.update c n .nothing).nodes q).currentTerm ≤ n.currentTerm := by
    intro n same q hq
    have current : (s₁.nodes c).currentTerm = (s.nodes c).currentTerm := by rw [own]
    by_cases hc : q = c
    · rw [hc, Cluster.update_nodes_self]
    rw [Cluster.update_nodes_ne _ _ _ hc, same, current]
    by_cases hp : q = p
    · rw [hp, term]
    · rw [others q hc hp]
      exact top q hq
  by_cases enough : majority m.peers ≤ votes + 1
  · rw [if_pos enough] at found
    refine ⟨_, first.trans (group₁.act member found rfl), ?_, Or.inl ?_⟩
    · rw [Cluster.update_nodes_self]
      exact terms _ rfl
    · rw [Cluster.update_nodes_self]
      rfl
  · rw [if_neg enough] at found
    have second := group₁.act member found rfl
    have node : ∀ q ∈ rest, (s₁.nodes q) = s.nodes q := fun q listed =>
      others q (members q (by simp [listed])).2 (by rintro rfl; exact fresh listed)
    have kept : ∀ q ∈ rest, q ≠ c := fun q listed => (members q (by simp [listed])).2
    refine ⟨_, first.trans second, ?_, Or.inr ⟨enough, group₁.reaches second, member, ?_, ?_, ?_,
      fun q listed => members q (by simp [listed]), fun q listed => ?_, fun q listed => ?_,
      fun q listed => ?_, ?_⟩⟩
    · rw [Cluster.update_nodes_self]
      exact terms _ rfl
    · rw [Cluster.update_nodes_self, own]
      exact role
    · rw [Cluster.update_nodes_self, own]
      exact arg
    · rw [Cluster.update_nodes_self]
    · rw [Cluster.update_nodes_self, own]
      have differ : q ≠ p := by
        rintro rfl
        exact fresh listed
      simpa [differ] using flags q (by simp [listed])
    · rw [Cluster.update_nodes_self, Cluster.update_nodes_ne _ _ _ (kept q listed),
        node q listed, own]
      exact behind q (by simp [listed])
    · rw [Cluster.update_nodes_self, Cluster.update_nodes_ne _ _ _ (kept q listed),
        node q listed, own]
      exact recent q (by simp [listed])
    · rw [Cluster.update_nodes_self]
      exact terms _ rfl

theorem canvass {votes : ℕ} {pending : List PeerId}
    (canvassing : Canvassing m Q c votes pending s) (distinct : pending.Nodup)
    (few : votes < majority m.peers) (enough : majority m.peers ≤ votes + pending.length) : ∃ t,
      Reaches (Cluster.step m) (Acts Q) s t ∧ (t.nodes c).role = .leader ∧
      ∀ q ∈ Q, (t.nodes q).currentTerm ≤ (t.nodes c).currentTerm := by
  induction pending generalizing s votes with
  | nil =>
    rw [List.length_nil] at enough
    omega
  | cons p rest ih =>
    obtain ⟨fresh, distinct⟩ := List.nodup_cons.mp distinct
    obtain ⟨t, first, top, leads | ⟨few', next⟩⟩ := canvass_one canvassing fresh
    · exact ⟨t, first, leads, top⟩
    · rw [List.length_cons] at enough
      obtain ⟨t', later, done⟩ := ih next distinct (by omega) (by omega)
      exact ⟨t', first.trans later, done⟩

theorem exists_most_recent (s : Cluster) (nonempty : Q.Nonempty) : ∃ c ∈ Q, ∀ p ∈ Q,
    (s.nodes p).upToDate (s.nodes c).mainLog.lastIndex (s.nodes c).mainLog.lastTerm = true := by
  obtain ⟨c, member, most⟩ := Q.exists_max_image
    (fun q => toLex ((s.nodes q).mainLog.lastTerm, (s.nodes q).mainLog.lastIndex)) nonempty
  refine ⟨c, member, fun p hp => ?_⟩
  rcases Prod.Lex.toLex_le_toLex.mp (most p hp) with earlier | ⟨same, shorter⟩
  · simp [Node.upToDate, show (s.nodes p).mainLog.lastTerm < _ from earlier]
  · simp [Node.upToDate, show (s.nodes p).mainLog.lastTerm = _ from same,
      show (s.nodes p).mainLog.lastIndex ≤ _ from shorter]

theorem elect (group : Group m Q s) (member : c ∈ Q) (standing : (s.nodes c).role ≠ .leader)
    (recent : ∀ p ∈ Q, (s.nodes p).upToDate (s.nodes c).mainLog.lastIndex
      (s.nodes c).mainLog.lastTerm = true)
    (many : majority m.peers ≤ Q.card) (two : 2 ≤ majority m.peers) : ∃ t,
      Reaches (Cluster.step m) (Acts Q) s t ∧ (t.nodes c).role = .leader ∧
      ∀ q ∈ Q, (t.nodes q).currentTerm ≤ (t.nodes c).currentTerm := by
  obtain ⟨s₁, first, others, store, above, stands⟩ :=
    group.campaign member standing (Q.sup fun q => (s.nodes q).currentTerm)
  have below : ∀ q ∈ Q, (s.nodes q).currentTerm < (s₁.nodes c).currentTerm := fun q hq =>
    lt_of_le_of_lt (Finset.le_sup (f := fun q => (s.nodes q).currentTerm) hq) above
  have listed : ∀ p ∈ (Q.erase c).toList, p ∈ Q ∧ p ≠ c := by
    intro p hp
    rw [Finset.mem_toList, Finset.mem_erase] at hp
    exact ⟨hp.2, hp.1⟩
  have log : (s₁.nodes c).mainLog = (s.nodes c).mainLog := by rw [store]
  have canvassing : Canvassing m Q c 1 (Q.erase c).toList s₁ := by
    refine ⟨group.reaches first, member, stands.role, stands.arg, stands.votes, listed,
      fun p _ => stands.flags p, fun p hp => ?_, fun p hp => ?_, fun q hq => ?_⟩
    · rw [others p (listed p hp).2]
      exact below p (listed p hp).1
    · rw [others p (listed p hp).2, log]
      exact recent p (listed p hp).1
    · by_cases same : q = c
      · rw [same]
      · rw [others q same]
        exact (below q hq).le
  obtain ⟨t, later, done⟩ := canvass canvassing (Finset.nodup_toList _) two (by
    rw [Finset.length_toList, Finset.card_erase_of_mem member]
    omega)
  exact ⟨t, first.trans later, done⟩

/-- A live majority comes to have a leader that none of its members is ahead of. -/
theorem elects (group : Group m Q s) (many : majority m.peers ≤ Q.card)
    (two : 2 ≤ majority m.peers) : ∃ t v, Reaches (Cluster.step m) (Acts Q) s t ∧ v ∈ Q ∧
      (t.nodes v).role = .leader ∧
      ∀ q ∈ Q, (t.nodes q).currentTerm ≤ (t.nodes v).currentTerm := by
  have nonempty : Q.Nonempty := Finset.card_pos.mp (by omega)
  obtain ⟨w, hw, latest⟩ := Q.exists_max_image (fun q => (s.nodes q).currentTerm) nonempty
  by_cases leads : (s.nodes w).role = .leader
  · exact ⟨s, w, .refl s, hw, leads, latest⟩
  obtain ⟨c, hc, recent⟩ := exists_most_recent s nonempty
  by_cases stale : (s.nodes c).role = .leader
  · have apart : c ≠ w := by
      rintro rfl
      exact leads stale
    obtain ⟨s₁, first, role, store⟩ := group.depose hw hc apart leads
    have log : ∀ u, (s₁.nodes u).mainLog = (s.nodes u).mainLog := fun u => by rw [store u]
    obtain ⟨t, later, done⟩ := (group.reaches first).elect hc (by simp [role])
      (fun p hp => by simpa only [Node.upToDate, log] using recent p hp) many two
    exact ⟨t, c, first.trans later, hc, done⟩
  · obtain ⟨t, later, done⟩ := group.elect hc stale recent many two
    exact ⟨t, c, later, hc, done⟩

end Group

end Zdb.Raft
