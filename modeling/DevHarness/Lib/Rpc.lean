import Mathlib.Data.List.Perm.Subperm
import Mathlib.Logic.Function.Basic
/-!
# Rpc — requests to one server over connections

Each client has one request at a time.  A connection is a queue each way: the server takes the requests off it in order
and answers each until its handler raises, and a client reads the next answer.  A client that gives up a request leaves
its connection, and the request may still be handled at any time.  So what a client reads is the server's answer to the
request it is waiting on (`Sound.read_answers`), and every request is handled once or is still on its way
(`Sound.conserved`).  The requests are handled one after another (`Sequential`), and one asked after an answer was read is
handled after the request that was answered (`Later.answered_since`).
-/
namespace Lib
namespace Rpc

/-- A connection: the requests written to it, what the server made of those it took off, and the answers read. -/
structure Conn (Q R : Type) where
  sent : List Q
  -- nothing when the handler raised
  answers : List (Option R) := []
  taken : ℕ := 0

structure Client (Q : Type) where
  conn : Option ℕ := none
  asking : Option Q := none

/-- The server and its clients, the requests asked so far and the ones handled, in order. -/
structure Net (D Q R : Type) where
  server : D
  conns : List (Conn Q R) := []
  clients : ℕ → Client Q := fun _ => {}
  asked : List Q := []
  log : List (Q × Option R) := []

variable {D I Q R : Type}

/-- On its way: written, and not taken off yet. -/
def Conn.waiting (c : Conn Q R) : List Q := c.sent.drop c.answers.length

namespace Net

/-- A request written whole, on the client's connection or on a new one. -/
def ask (s : Net D Q R) (k : ℕ) (q : Q) : Option (Net D Q R) :=
  if (s.clients k).asking.isSome = true then none
  else match (s.clients k).conn with
    | none => some { s with
        conns := s.conns ++ [⟨[q], [], 0⟩]
        clients := Function.update s.clients k ⟨some s.conns.length, some q⟩
        asked := s.asked ++ [q] }
    | some c => (s.conns[c]?).map (fun conn => { s with
        conns := s.conns.set c { conn with sent := conn.sent ++ [q] }
        clients := Function.update s.clients k ⟨some c, some q⟩
        asked := s.asked ++ [q] })

/-- The server takes the next request off a connection.  A handler that raised has ended it. -/
def serve (handle : D → Q → I → Option R × D) (s : Net D Q R) (c : ℕ) (i : I) : Option (Net D Q R) :=
  match s.conns[c]? with
  | none => none
  | some conn =>
    if conn.answers.all Option.isSome = true then
      (conn.waiting.head?).map (fun q => { s with
        server := (handle s.server q i).2
        conns := s.conns.set c { conn with answers := conn.answers ++ [(handle s.server q i).1] }
        log := s.log ++ [(q, (handle s.server q i).1)] })
    else none

/-- A client reads the next answer on its connection. -/
def read (s : Net D Q R) (k : ℕ) : Option (R × Net D Q R) :=
  match s.clients k with
  | ⟨some c, some _⟩ => match s.conns[c]? with
    | none => none
    | some conn => match conn.answers[conn.taken]? with
      | some (some r) => some (r, { s with
          conns := s.conns.set c { conn with taken := conn.taken + 1 }
          clients := Function.update s.clients k ⟨some c, none⟩ })
      | _ => none
  | _ => none

/-- A client drops its connection, and the request it may be waiting on. -/
def leave (s : Net D Q R) (k : ℕ) : Net D Q R := { s with clients := Function.update s.clients k {} }

theorem ask_spec {s s' : Net D Q R} {k : ℕ} {q : Q} (h : s.ask k q = some s') :
    (s.clients k).asking = none ∧ s'.server = s.server ∧ s'.log = s.log ∧ s'.asked = s.asked ++ [q] ∧
      (s'.clients k).asking = some q ∧ ∀ l, l ≠ k → s'.clients l = s.clients l := by
  unfold ask at h
  split at h
  · cases h
  rename_i hidle
  have hnone : (s.clients k).asking = none := Option.not_isSome_iff_eq_none.1 hidle
  split at h
  · cases h
    exact ⟨hnone, rfl, rfl, rfl, by simp, fun l hl => Function.update_of_ne hl _ _⟩
  · obtain ⟨conn, -, rfl⟩ := Option.map_eq_some_iff.1 h
    exact ⟨hnone, rfl, rfl, rfl, by simp, fun l hl => Function.update_of_ne hl _ _⟩

theorem serve_spec {handle : D → Q → I → Option R × D} {s s' : Net D Q R} {c : ℕ} {i : I}
    (h : s.serve handle c i = some s') : ∃ q, s'.log = s.log ++ [(q, (handle s.server q i).1)] ∧
      s'.server = (handle s.server q i).2 ∧ s'.asked = s.asked ∧ s'.clients = s.clients := by
  unfold serve at h
  split at h
  · cases h
  · split at h
    · obtain ⟨q, -, rfl⟩ := Option.map_eq_some_iff.1 h
      exact ⟨q, rfl, rfl, rfl, rfl⟩
    · cases h

/-- On their way to the server. -/
def pending (s : Net D Q R) : List Q := s.conns.flatMap Conn.waiting

/-- **What holds of a net**: each connection is one client's at most, whose request is all that is not yet read on it;
answers stand beside their requests in the log; a request asked is handled, or on its way. -/
structure Sound (s : Net D Q R) : Prop where
  has : ∀ k c, (s.clients k).conn = some c → c < s.conns.length
  apart : ∀ k l c, (s.clients k).conn = some c → (s.clients l).conn = some c → k = l
  idle : ∀ k, (s.clients k).conn = none → (s.clients k).asking = none
  unread : ∀ k c conn, (s.clients k).conn = some c → s.conns[c]? = some conn →
    conn.sent.drop conn.taken = (s.clients k).asking.toList ∧ conn.taken ≤ conn.sent.length
  behind : ∀ conn ∈ s.conns, conn.answers.length ≤ conn.sent.length
  logged : ∀ conn ∈ s.conns, ∀ (j : ℕ) q r, conn.sent[j]? = some q → conn.answers[j]? = some r → (q, r) ∈ s.log
  conserved : (s.log.map Prod.fst ++ s.pending).Perm s.asked

theorem sound_init (d : D) : Sound ({ server := d } : Net D Q R) where
  has := fun _ _ h => by cases h
  apart := fun _ _ _ h => by cases h
  idle := fun _ _ => rfl
  unread := fun _ _ _ h => by cases h
  behind := fun _ h => by cases h
  logged := fun _ h => by cases h
  conserved := List.Perm.refl _

/-- What goes on at the server beside the requests leaves the net sound. -/
theorem Sound.server {s : Net D Q R} (h : s.Sound) (d : D) : Sound { s with server := d } :=
  ⟨h.has, h.apart, h.idle, h.unread, h.behind, h.logged, h.conserved⟩

@[simp] theorem leave_self (s : Net D Q R) (k : ℕ) : (s.leave k).clients k = {} := Function.update_self _ _ _

theorem leave_of_ne (s : Net D Q R) {k l : ℕ} (h : l ≠ k) : (s.leave k).clients l = s.clients l :=
  Function.update_of_ne h _ _

theorem Sound.leave {s : Net D Q R} (h : s.Sound) (k : ℕ) : (s.leave k).Sound := by
  have hconn : ∀ l c, ((s.leave k).clients l).conn = some c → (s.leave k).clients l = s.clients l := by
    intro l c hc
    by_cases hl : l = k
    · rw [hl, leave_self] at hc
      cases hc
    · exact leave_of_ne s hl
  refine ⟨fun l c hc => ?_, fun l m c hl hm => ?_, fun l hl => ?_, fun l c conn hc hget => ?_, h.behind, h.logged,
    h.conserved⟩
  · exact h.has l c (hconn l c hc ▸ hc)
  · exact h.apart l m c (hconn l c hl ▸ hl) (hconn m c hm ▸ hm)
  · by_cases hlk : l = k
    · rw [hlk, leave_self]
    · rw [leave_of_ne s hlk] at hl ⊢
      exact h.idle l hl
  · rw [hconn l c hc]
    exact h.unread l c conn (hconn l c hc ▸ hc) hget

/-! ## One connection changed -/

theorem flatMap_set_perm {α β : Type} (f : α → List β) {x : α} (y : α) : ∀ {l : List α} {i : ℕ}, l[i]? = some x →
    ((l.set i y).flatMap f ++ f x).Perm (l.flatMap f ++ f y)
  | [], _, h => by cases h
  | a :: l, 0, h => by
    obtain rfl : a = x := Option.some.inj h
    simp only [List.set_cons_zero, List.flatMap_cons, List.append_assoc]
    exact (List.perm_append_comm.append_left (f y)).trans ((List.perm_append_comm_assoc _ _ _).trans
      (List.perm_append_comm.append_left (f a)))
  | a :: l, i + 1, h => by
    simp only [List.set_cons_succ, List.flatMap_cons, List.append_assoc]
    exact (flatMap_set_perm f y (l := l) h).append_left (f a)

/-- **A connection and its client changed**: what is to be shown of the two keeps the net sound. -/
theorem Sound.set {s : Net D Q R} (h : s.Sound) {c : ℕ} {conn conn' : Conn Q R} (hget : s.conns[c]? = some conn)
    {server : D} {clients : ℕ → Client Q} {asked : List Q} {log : List (Q × Option R)}
    (hconns : ∀ k, (clients k).conn = (s.clients k).conn)
    (hothers : ∀ k, (s.clients k).conn ≠ some c → (clients k).asking = (s.clients k).asking)
    (hunread : ∀ k, (s.clients k).conn = some c →
      conn'.sent.drop conn'.taken = (clients k).asking.toList ∧ conn'.taken ≤ conn'.sent.length)
    (hbehind : conn'.answers.length ≤ conn'.sent.length)
    (hlogged : ∀ (j : ℕ) q r, conn'.sent[j]? = some q → conn'.answers[j]? = some r → (q, r) ∈ log)
    (hsub : s.log ⊆ log)
    (hconserved : (log.map Prod.fst ++ (s.conns.set c conn').flatMap Conn.waiting).Perm asked) :
    Sound ⟨server, s.conns.set c conn', clients, asked, log⟩ where
  has := fun k c' hc => by
    rw [List.length_set]
    exact h.has k c' (hconns k ▸ hc)
  apart := fun k l c' hk hl => h.apart k l c' (hconns k ▸ hk) (hconns l ▸ hl)
  idle := fun k hk => by
    have hnone : (s.clients k).conn = none := hconns k ▸ hk
    exact (hothers k (by rw [hnone]; exact fun he => by cases he)).trans (h.idle k hnone)
  unread := fun k c' conn₁ hk hget₁ => by
    have hk' : (s.clients k).conn = some c' := hconns k ▸ hk
    by_cases hc : c' = c
    · subst hc
      rw [List.getElem?_set_self (List.getElem?_eq_some_iff.1 hget).1] at hget₁
      cases hget₁
      exact hunread k hk'
    · have hget₂ : s.conns[c']? = some conn₁ := by
        rw [← hget₁]
        exact (List.getElem?_set_ne (Ne.symm hc)).symm
      show _ = (clients k).asking.toList ∧ _
      rw [hothers k (by rw [hk']; exact fun he => hc (Option.some.inj he))]
      exact h.unread k c' conn₁ hk' hget₂
  behind := fun conn₁ hmem => by
    rcases List.mem_or_eq_of_mem_set hmem with hmem | rfl
    · exact h.behind conn₁ hmem
    · exact hbehind
  logged := fun conn₁ hmem j q r hq hr => by
    rcases List.mem_or_eq_of_mem_set hmem with hmem | rfl
    · exact hsub (h.logged conn₁ hmem j q r hq hr)
    · exact hlogged j q r hq hr
  conserved := hconserved

theorem pending_set {s : Net D Q R} {c : ℕ} {conn conn' : Conn Q R} (hget : s.conns[c]? = some conn) {new : List Q}
    (hwaiting : conn'.waiting = conn.waiting ++ new) :
    ((s.conns.set c conn').flatMap Conn.waiting).Perm (s.pending ++ new) := by
  have hset := flatMap_set_perm Conn.waiting conn' hget
  rw [hwaiting] at hset
  refine (List.perm_append_right_iff conn.waiting).1 (hset.trans ?_)
  rw [List.append_assoc]
  exact List.perm_append_comm.append_left s.pending

/-- **A request put on its way.** -/
theorem Sound.ask {s s' : Net D Q R} {k : ℕ} {q : Q} (h : s.Sound) (hask : s.ask k q = some s') : s'.Sound := by
  unfold Net.ask at hask
  split at hask
  · cases hask
  rename_i hidle
  have hnone : (s.clients k).asking = none := Option.not_isSome_iff_eq_none.1 hidle
  split at hask
  · rename_i hk
    cases hask
    have hnew : ∀ l c, (s.clients l).conn = some c → l ≠ k := fun l c hl hlk => by
      rw [hlk, hk] at hl
      cases hl
    have hconn : ∀ l c, (Function.update s.clients k ⟨some s.conns.length, some q⟩ l).conn = some c →
        (l = k ∧ c = s.conns.length) ∨ (l ≠ k ∧ (s.clients l).conn = some c) := fun l c hl => by
      by_cases hlk : l = k
      · rw [hlk, Function.update_self] at hl
        exact Or.inl ⟨hlk, (Option.some.inj hl).symm⟩
      · rw [Function.update_of_ne hlk] at hl
        exact Or.inr ⟨hlk, hl⟩
    refine ⟨fun l c hl => ?_, fun l m c hl hm => ?_, fun l hl => ?_, fun l c conn hl hget => ?_, fun conn hmem => ?_,
      fun conn hmem j q' r hq hr => ?_, ?_⟩
    · rw [List.length_append]
      rcases hconn l c hl with ⟨-, rfl⟩ | ⟨-, hl⟩
      · exact Nat.lt_succ_self _
      · exact Nat.lt_succ_of_lt (h.has l c hl)
    · rcases hconn l c hl with ⟨hlk, hlc⟩ | ⟨-, hlc⟩ <;> rcases hconn m c hm with ⟨hmk, hmc⟩ | ⟨-, hmc⟩
      · rw [hlk, hmk]
      · exact absurd (hlc ▸ h.has m c hmc) (Nat.lt_irrefl _)
      · exact absurd (hmc ▸ h.has l c hlc) (Nat.lt_irrefl _)
      · exact h.apart l m c hlc hmc
    · by_cases hlk : l = k
      · rw [hlk] at hl
        dsimp only at hl
        rw [Function.update_self] at hl
        cases hl
      · dsimp only at hl ⊢
        rw [Function.update_of_ne hlk] at hl ⊢
        exact h.idle l hl
    · rcases hconn l c hl with ⟨rfl, rfl⟩ | ⟨hlk, hl⟩
      · rw [List.getElem?_concat_length] at hget
        cases hget
        dsimp only
        rw [Function.update_self]
        exact ⟨rfl, Nat.zero_le _⟩
      · rw [List.getElem?_append_left (h.has l c hl)] at hget
        dsimp only
        rw [Function.update_of_ne hlk]
        exact h.unread l c conn hl hget
    · rcases List.mem_append.1 hmem with hmem | hmem
      · exact h.behind conn hmem
      · rw [List.mem_singleton.1 hmem]
        exact Nat.zero_le _
    · rcases List.mem_append.1 hmem with hmem | hmem
      · exact h.logged conn hmem j q' r hq hr
      · rw [List.mem_singleton.1 hmem] at hr
        cases hr
    · show (s.log.map Prod.fst ++ (s.conns ++ [Conn.mk [q] [] 0]).flatMap Conn.waiting).Perm (s.asked ++ [q])
      rw [List.flatMap_append, ← List.append_assoc]
      exact h.conserved.append_right [q]
  · rename_i c hk
    obtain ⟨conn, hget, rfl⟩ := Option.map_eq_some_iff.1 hask
    obtain ⟨hdrop, hle⟩ := h.unread k c conn hk hget
    have hmem : conn ∈ s.conns := List.mem_of_getElem? hget
    have hbehind := h.behind conn hmem
    rw [hnone] at hdrop
    refine h.set hget (fun l => ?_) (fun l hl => ?_) (fun l hl => ?_) ?_ (fun j q' r hq hr => ?_) (List.Subset.refl _) ?_
    · by_cases hlk : l = k
      · rw [hlk, Function.update_self, hk]
      · rw [Function.update_of_ne hlk]
    · rw [Function.update_of_ne]
      rintro rfl
      exact hl hk
    · rw [h.apart l k c hl hk, Function.update_self]
      dsimp only
      rw [List.drop_append_of_le_length hle, hdrop, List.length_append]
      exact ⟨rfl, Nat.le_add_right_of_le hle⟩
    · rw [List.length_append]
      exact Nat.le_add_right_of_le hbehind
    · have hj := (List.getElem?_eq_some_iff.1 hr).1
      rw [List.getElem?_append_left (Nat.lt_of_lt_of_le hj hbehind)] at hq
      exact h.logged conn hmem j q' r hq hr
    · have hwaiting : Conn.waiting { conn with sent := conn.sent ++ [q] } = conn.waiting ++ [q] :=
        List.drop_append_of_le_length hbehind
      refine ((pending_set hget hwaiting).append_left _).trans ?_
      rw [← List.append_assoc]
      exact h.conserved.append_right [q]

/-- **A request handled.** -/
theorem Sound.serve {handle : D → Q → I → Option R × D} {s s' : Net D Q R} {c : ℕ} {i : I} (h : s.Sound)
    (hserve : s.serve handle c i = some s') : s'.Sound := by
  unfold Net.serve at hserve
  split at hserve
  · cases hserve
  rename_i conn hget
  split at hserve
  swap
  · cases hserve
  obtain ⟨q, hq, rfl⟩ := Option.map_eq_some_iff.1 hserve
  have hmem : conn ∈ s.conns := List.mem_of_getElem? hget
  have hnext : conn.sent[conn.answers.length]? = some q := by
    rw [← hq, Conn.waiting, List.head?_drop]
  obtain ⟨hlt, -⟩ := List.getElem?_eq_some_iff.1 hnext
  refine h.set hget (fun _ => rfl) (fun _ _ => rfl) (fun l hl => h.unread l c conn hl hget) ?_ (fun j q' r hq' hr => ?_)
    (List.subset_append_left _ _) ?_
  · rw [List.length_append]
    exact hlt
  · rw [List.getElem?_append] at hr
    split at hr
    · exact List.mem_append_left _ (h.logged conn hmem j q' r hq' hr)
    · rename_i hj
      obtain ⟨hzero, rfl⟩ : j = conn.answers.length ∧ r = (handle s.server q i).1 := by
        rw [List.getElem?_singleton] at hr
        split at hr
        · exact ⟨by omega, (Option.some.inj hr).symm⟩
        · cases hr
      rw [hzero, hnext] at hq'
      cases hq'
      exact List.mem_append_right _ (List.mem_singleton.2 rfl)
  · have hwaiting : conn.waiting = q :: Conn.waiting { conn with answers := conn.answers ++ [(handle s.server q i).1] } := by
      unfold Conn.waiting
      rw [List.length_append, List.drop_eq_getElem_cons hlt, (List.getElem?_eq_some_iff.1 hnext).2]
      rfl
    have hset := flatMap_set_perm Conn.waiting { conn with answers := conn.answers ++ [(handle s.server q i).1] } hget
    rw [hwaiting, List.append_cons, List.perm_append_right_iff] at hset
    rw [List.map_append, List.append_assoc]
    exact ((List.perm_append_comm.trans hset).append_left _).trans h.conserved

theorem read_cases {s s' : Net D Q R} {k : ℕ} {r : R} (hread : s.read k = some (r, s')) :
    ∃ c q conn, s.clients k = ⟨some c, some q⟩ ∧ s.conns[c]? = some conn ∧ conn.answers[conn.taken]? = some (some r) ∧
      s' = { s with conns := s.conns.set c { conn with taken := conn.taken + 1 },
                    clients := Function.update s.clients k ⟨some c, none⟩ } := by
  unfold Net.read at hread
  split at hread
  · rename_i c q hk
    split at hread
    · cases hread
    · rename_i conn hget
      split at hread
      · rename_i r' hr
        cases hread
        exact ⟨c, q, conn, hk, hget, hr, rfl⟩
      · cases hread
  · cases hread

theorem read_spec {s s' : Net D Q R} {k : ℕ} {r : R} (hread : s.read k = some (r, s')) :
    s'.server = s.server ∧ s'.log = s.log ∧ s'.asked = s.asked ∧ (s'.clients k).asking = none ∧
      ∀ l, l ≠ k → s'.clients l = s.clients l := by
  obtain ⟨c, q, conn, -, -, -, rfl⟩ := read_cases hread
  exact ⟨rfl, rfl, rfl, by simp, fun l hl => Function.update_of_ne hl _ _⟩

/-- **What a client reads is the answer to the request it is waiting on.** -/
theorem Sound.read_answers {s s' : Net D Q R} {k : ℕ} {r : R} (h : s.Sound) (hread : s.read k = some (r, s')) :
    ∃ q, (s.clients k).asking = some q ∧ (q, some r) ∈ s.log := by
  obtain ⟨c, q, conn, hk, hget, hr, -⟩ := read_cases hread
  have hdrop := (h.unread k c conn (by rw [hk]) hget).1
  rw [hk] at hdrop
  have hq : conn.sent[conn.taken]? = some q := by
    rw [← List.head?_drop, hdrop]
    rfl
  exact ⟨q, by rw [hk], h.logged conn (List.mem_of_getElem? hget) conn.taken q (some r) hq hr⟩

theorem Sound.read {s s' : Net D Q R} {k : ℕ} {r : R} (h : s.Sound) (hread : s.read k = some (r, s')) : s'.Sound := by
  obtain ⟨c, q, conn, hk, hget, hr, rfl⟩ := read_cases hread
  have hconn : (s.clients k).conn = some c := by rw [hk]
  obtain ⟨hdrop, -⟩ := h.unread k c conn hconn hget
  have hmem : conn ∈ s.conns := List.mem_of_getElem? hget
  have hlt : conn.taken < conn.sent.length :=
    Nat.lt_of_lt_of_le (List.getElem?_eq_some_iff.1 hr).1 (h.behind conn hmem)
  refine h.set hget (fun l => ?_) (fun l hl => ?_) (fun l hl => ?_) (h.behind conn hmem) (h.logged conn hmem)
    (List.Subset.refl _) ?_
  · by_cases hlk : l = k
    · rw [hlk, Function.update_self, hconn]
    · rw [Function.update_of_ne hlk]
  · rw [Function.update_of_ne]
    rintro rfl
    exact hl hconn
  · rw [h.apart l k c hl hconn, Function.update_self]
    refine ⟨?_, hlt⟩
    rw [hk, List.drop_eq_getElem_cons hlt] at hdrop
    exact (List.cons.inj hdrop).2
  · have hwaiting : Conn.waiting { conn with taken := conn.taken + 1 } = conn.waiting ++ [] := (List.append_nil _).symm
    refine ((pending_set hget hwaiting).append_left _).trans ?_
    rw [List.append_nil]
    exact h.conserved

/-- **No request is handled more often than it was asked.** -/
theorem Sound.handled_subperm {s : Net D Q R} (h : s.Sound) : (s.log.map Prod.fst).Subperm s.asked :=
  (List.sublist_append_left _ _).subperm.trans h.conserved.subperm

end Net

/-! ## The order the requests are handled in -/

/-- From `d` the server handled these requests one after another, with these answers, and got to the last state. -/
inductive Sequential (handle : D → Q → I → Option R × D) (d : D) : List (Q × Option R) → D → Prop
  | start : Sequential handle d [] d
  | next {log : List (Q × Option R)} {d' : D} (h : Sequential handle d log d') (q : Q) (i : I) :
    Sequential handle d (log ++ [(q, (handle d' q i).1)]) (handle d' q i).2

variable {handle : D → Q → I → Option R × D}

/-- **The rule for what the handler keeps**, as it speaks of the requests handled so far. -/
theorem Sequential.inv (Inv : List (Q × Option R) → D → Prop) {d : D} (hstart : Inv [] d)
    (hnext : ∀ log d' q i, Inv log d' → Inv (log ++ [(q, (handle d' q i).1)]) (handle d' q i).2)
    {log : List (Q × Option R)} {d' : D} (h : Sequential handle d log d') : Inv log d' := by
  induction h with
  | start => exact hstart
  | next _ q i ih => exact hnext _ _ q i ih

/-- **Each answer is the handler's**, in a state that the requests before it lead to. -/
theorem Sequential.answered {d d' : D} {log : List (Q × Option R)} (h : Sequential handle d log d') :
    ∀ x ∈ log, ∃ before d₁ i, Sequential handle d before d₁ ∧ x.2 = (handle d₁ x.1 i).1 := by
  induction h with
  | start => exact fun _ hx => by cases hx
  | next hbefore q i ih =>
    intro x hx
    rcases List.mem_append.1 hx with hx | hx
    · exact ih x hx
    · rw [List.mem_singleton.1 hx]
      exact ⟨_, _, i, hbefore, rfl⟩

namespace Net

/-- The net has gone on from `s` to `t`, and handled these requests meanwhile. -/
structure Later (handle : D → Q → I → Option R × D) (s t : Net D Q R) (new : List (Q × Option R)) : Prop where
  log : t.log = s.log ++ new
  handled : Sequential handle s.server new t.server

theorem Later.refl (s : Net D Q R) : Later handle s s [] := ⟨(List.append_nil _).symm, .start⟩

/-- A step that handles nothing. -/
theorem Later.quiet {s t t' : Net D Q R} {new : List (Q × Option R)} (h : Later handle s t new)
    (hserver : t'.server = t.server) (hlog : t'.log = t.log) : Later handle s t' new :=
  ⟨hlog.trans h.log, by rw [hserver]; exact h.handled⟩

theorem Later.serve {s t t' : Net D Q R} {new : List (Q × Option R)} {c : ℕ} {i : I} (h : Later handle s t new)
    (hserve : t.serve handle c i = some t') : ∃ x, Later handle s t' (new ++ [x]) := by
  obtain ⟨q, hlog, hserver, -, -⟩ := serve_spec hserve
  refine ⟨(q, (handle t.server q i).1), ?_, ?_⟩
  · rw [hlog, h.log, List.append_assoc]
  · rw [hserver]
    exact h.handled.next q i

/-- **A request that had not been asked is handled later**: its answer is the handler's in a state after `s`. -/
theorem Later.answered_since {s t : Net D Q R} {new : List (Q × Option R)} (hs : s.Sound) (h : Later handle s t new)
    {x : Q × Option R} (hx : x ∈ t.log) (hnew : x.1 ∉ s.asked) : x ∈ new := by
  rw [h.log] at hx
  refine (List.mem_append.1 hx).resolve_left (fun hold => hnew ?_)
  exact hs.handled_subperm.subset (List.mem_map_of_mem hold)

end Net
end Rpc
end Lib
