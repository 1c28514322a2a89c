import LibCoap.Application.Backlog

/-! # Transfers over a slow network

A network that loses, duplicates and reorders nothing, but takes its time: an answer may arrive rounds after
its request. Each round in which nothing has come in time is made up for by one more request, whose answer
comes all the same, so a late answer costs one more round for every block that is left. The delays of a whole
transfer add up: as long as no more than four answers have been late the resource is downloaded
(`Line.delays_tolerated`), and the fifth one ends the transfer (`Line.delays_end`). -/

namespace LibCoap

open Machine Wire

/-! ## The network -/

/-- **A round on a slow network**: how many answers arrive before the request is sent, and how many between
that and the turn in which one is received. -/
structure Pace where
  before : Nat
  sending : Surroundings
  between : Nat
  receiving : Surroundings
  deriving DecidableEq, Repr

/-- A round in which neither `select` nor `send` fails. -/
structure Pace.Works (t : Pace) : Prop where
  sending : t.sending.failed = none
  receiving : t.receiving.failed = none
  sendOk : t.sending.sendOk = true

/-- A program, the answers that are under way to it, oldest first, and the number of rounds in which nothing
came in time. -/
structure Line where
  program : Program
  flight : List (List UInt8)
  late : Nat
  deriving DecidableEq, Repr

namespace Line

/-- The oldest answers arrive. -/
def deliver (std : StdSort) (l : Line) (n : Nat) : Exec Line := do
  let p ← l.program.run std (((l.flight.take n).map Arrival.datagram).map Event.arrive)
  pure { l with program := p, flight := l.flight.drop n }

/-- What is requested is answered. -/
def answer (server : List UInt8 → List UInt8) (l : Line) (p : Program) : Line where
  program := p
  flight := l.flight ++ (p.ep.conn.sent.drop l.program.ep.conn.sent.length).map server
  late := l.late

/-- Whether the program waits in vain. -/
def isLate (l : Line) : Bool := !l.program.quit && l.program.socket.isEmpty

/-- The first half of a round: a request is sent. -/
def sends (std : StdSort) (server : List UInt8 → List UInt8) (l : Line) (t : Pace) : Exec Line := do
  let l ← l.deliver std t.before
  let p ← l.program.step std (.turn t.sending)
  (l.answer server p).deliver std t.between

/-- The second half of a round: something is received, if something has arrived. -/
def receives (std : StdSort) (l : Line) (t : Pace) : Exec Line := do
  let p ← l.program.step std (.turn t.receiving)
  pure { l with program := p, late := if l.isLate then l.late + 1 else l.late }

/-- One round. -/
def round (std : StdSort) (server : List UInt8 → List UInt8) (l : Line) (t : Pace) : Exec Line := do
  let l ← l.sends std server t
  l.receives std t

/-- A sequence of rounds. -/
def rounds (std : StdSort) (server : List UInt8 → List UInt8) (l : Line) (ts : List Pace) : Exec Line :=
  ts.foldlM (fun l t => l.round std server t) l

variable {std : StdSort} {least limit j k m n : Nat} {resource file : List UInt8}
  {server : List UInt8 → List UInt8} {l l' : Line} {p : Program} {s : Surroundings} {t : Pace}
  {ts : List Pace} {waiting : List (List UInt8)} {last : State} {code : ErrorCode}

/-- What arrives goes from the network to the socket. -/
theorem deliver_eq (l : Line) (n : Nat) :
    l.deliver std n = .ok { l with
      program := { l.program with
        socket := l.program.socket ++ (l.flight.take n).map Arrival.datagram }
      flight := l.flight.drop n } := by
  rw [deliver, Program.run_arrivals]
  rfl

/-! ## Rounds of a transfer -/

/-- **A program that trails by `k`** on a slow network: what is under way is in the network or waits at the
socket, and `k` rounds have been late. -/
structure Lags (least : Nat) (resource : List UInt8) (k j : Nat) (waiting : List (List UInt8))
    (l : Line) : Prop where
  late : l.late = k
  trailing : l.program.Trailing least resource k j (waiting ++ l.flight)
  socket : l.program.socket = waiting.map Arrival.datagram
  named : l.program.ep.mid = 0 → waiting ++ l.flight = []

/-- Some answers arrive. -/
theorem Lags.deliver (h : l.Lags least resource k j waiting) (n : Nat) :
    ∃ l' waiting', l.deliver std n = .ok l' ∧ l'.Lags least resource k j waiting' ∧
      l'.program.ep = l.program.ep := by
  have hjoined : (waiting ++ l.flight.take n) ++ l.flight.drop n = waiting ++ l.flight := by
    rw [List.append_assoc, List.take_append_drop]
  refine ⟨_, waiting ++ l.flight.take n, deliver_eq l n, ⟨h.late, ?_, ?_, ?_⟩, rfl⟩
  · show Program.Trailing _ _ _ _ ((waiting ++ l.flight.take n) ++ l.flight.drop n) _
    rw [hjoined]
    exact h.trailing.arrives _
  · show l.program.socket ++ _ = _
    rw [h.socket, List.map_append]
  · intro hzero
    show (waiting ++ l.flight.take n) ++ l.flight.drop n = []
    rw [hjoined]
    exact h.named hzero

/-- No more requests have been sent for the block than it trails by. -/
theorem Lags.le (h : l.Lags least resource k j waiting) : j ≤ k ∧ j ≤ 4 := by
  obtain ⟨before, hbefore, -⟩ := h.trailing.queue
  have hattempts : l.program.ep.attempts ≤ 4 := h.trailing.asking.inv.attempts
  rw [h.trailing.attempts] at hattempts
  omega

/-- **Inside a round**: the request has been sent. -/
structure Midway (least : Nat) (resource : List UInt8) (k j : Nat) (waiting : List (List UInt8))
    (l : Line) : Prop where
  late : l.late = k
  expecting : l.program.Expecting least resource k j (waiting ++ l.flight)
  socket : l.program.socket = waiting.map Arrival.datagram

/-- Some answers arrive. -/
theorem Midway.deliver (h : l.Midway least resource k j waiting) (n : Nat) :
    ∃ l' waiting', l.deliver std n = .ok l' ∧ l'.Midway least resource k j waiting' ∧
      l'.program.ep = l.program.ep := by
  have hjoined : (waiting ++ l.flight.take n) ++ l.flight.drop n = waiting ++ l.flight := by
    rw [List.append_assoc, List.take_append_drop]
  refine ⟨_, waiting ++ l.flight.take n, deliver_eq l n, ⟨h.late, ?_, ?_⟩, rfl⟩
  · show Program.Expecting _ _ _ _ ((waiting ++ l.flight.take n) ++ l.flight.drop n) _
    rw [hjoined]
    exact h.expecting.arrives _
  · show l.program.socket ++ _ = _
    rw [h.socket, List.map_append]

/-- **How a round ends** when the request goes out under the id `mid`. -/
inductive Turned (least : Nat) (resource : List UInt8) (k j : Nat) (mid : UInt16) (l l' : Line) : Prop where
  /-- Nothing has come, or a stray datagram, and the block is asked for again. -/
  | again {k' : Nat} {waiting : List (List UInt8)} (count : k' = k + 1 ∨ (k' = k ∧ j < k))
      (next : l'.Lags least resource k' (j + 1) waiting)
      (offset : l'.program.ep.askedOffset = l.program.ep.askedOffset) (mid : l'.program.ep.mid = mid)
  /-- The fifth attempt has been in vain. -/
  | gaveUp (last : j = 4) (count : l'.late = k + 1 ∨ (l'.late = k ∧ j < k))
      (ends : l'.program.Closing .error (resource.take l.program.ep.askedOffset) .coapTimeout)
  /-- The block has been stored, and there are more. -/
  | stored {waiting : List (List UInt8)} (answer : j = k)
      (next : l'.program.ep.mid ≠ 0 → l'.Lags least resource k 0 waiting)
      (inside : l'.program.ep.askedOffset < resource.length)
      (gained : l.program.ep.askedOffset + least ≤ l'.program.ep.askedOffset)
      (mid : l'.program.ep.mid = mid + 1)
  /-- It has been the last block. -/
  | done {code : ErrorCode} (answer : j = k) (count : l'.late = k)
      (ends : l'.program.Closing .complete resource code)

/-- What arrives changes nothing for a program that comes to its end. -/
theorem closing_deliver (h : l.program.Closing last file code) (n : Nat) :
    ∃ l', l.deliver std n = .ok l' ∧ l'.program.Closing last file code ∧ l'.late = l.late ∧
      l'.program.quit = l.program.quit :=
  ⟨_, deliver_eq l n, h.arrives _, rfl, rfl⟩

/-- Nor does a round. -/
theorem closing_round (h : l.program.Closing last file code) (hlast : last = .complete ∨ last = .error)
    (hworks : t.Works) :
    ∃ l', l.round std server t = .ok l' ∧ l'.program.Closing last file code ∧ l'.late = l.late := by
  obtain ⟨l₁, hbefore, h₁, hlate₁, -⟩ : ∃ l₁, l.deliver std t.before = .ok l₁ ∧ _ :=
    closing_deliver h t.before
  obtain ⟨p, hsends, h₂, hquit⟩ : ∃ p, l₁.program.turn std t.sending = .ok p ∧ _ :=
    h₁.turn hlast hworks.sending
  have hanswer : (l₁.answer server p).program.Closing last file code := h₂
  obtain ⟨l₂, hbetween, h₃, hlate₂, hquit₂⟩ :
      ∃ l₂, (l₁.answer server p).deliver std t.between = .ok l₂ ∧ _ := closing_deliver hanswer t.between
  obtain ⟨q, hreceives, h₄, -⟩ : ∃ q, l₂.program.turn std t.receiving = .ok q ∧ _ :=
    h₃.turn hlast hworks.receiving
  have hended : l₂.isLate = false := by
    rw [isLate, hquit₂.trans hquit]
    rfl
  refine ⟨_, bind_eq_ok.mpr ⟨l₂, bind_eq_ok.mpr ⟨l₁, hbefore, bind_eq_ok.mpr ⟨p, hsends, hbetween⟩⟩,
    bind_eq_ok.mpr ⟨q, hreceives, rfl⟩⟩, h₄, ?_⟩
  rw [hended]
  exact hlate₂.trans hlate₁

/-- Nor do further rounds. -/
theorem closing_rounds (h : l.program.Closing last file code) (hlast : last = .complete ∨ last = .error)
    (hworks : ∀ t ∈ ts, t.Works) :
    ∃ l', l.rounds std server ts = .ok l' ∧ l'.late = l.late ∧ l'.program.Closing last file code := by
  induction ts generalizing l with
  | nil => exact ⟨l, rfl, rfl, h⟩
  | cons t ts ih =>
    obtain ⟨hfirst, hothers⟩ := List.forall_mem_cons.mp hworks
    obtain ⟨l₁, hround, h₁, hlate₁⟩ := closing_round h hlast hfirst
    obtain ⟨l', hrest, hlate, hends⟩ := ih h₁ hothers
    exact ⟨l', foldlM_cons_eq_ok.mpr ⟨l₁, hround, hrest⟩, hlate.trans hlate₁, hends⟩

/-- Only the place of the block that is asked for matters. -/
theorem Turned.congr {mid : UInt16} {l₁ : Line} (h : Turned least resource k j mid l₁ l')
    (hoffset : l₁.program.ep.askedOffset = l.program.ep.askedOffset) :
    Turned least resource k j mid l l' := by
  cases h with
  | again count next offset mid => exact .again count next (offset.trans hoffset) mid
  | gaveUp last count ends => exact .gaveUp last count (hoffset ▸ ends)
  | stored answer next inside gained mid => exact .stored answer next inside (hoffset ▸ gained) mid
  | done answer count ends => exact .done answer count ends

section Rounds

variable (hfit : Endpoint.NumbersFit limit least resource) (hleast : least ≤ blockMaxSize)
  (hserver : Serves limit least resource server)

include hfit hleast hserver

/-- **The first half of a round**. -/
theorem Lags.sends (h : l.Lags least resource k j waiting) (hworks : t.Works) :
    ∃ l' waiting', l.sends std server t = .ok l' ∧ l'.Midway least resource k j waiting' ∧
      l'.program.ep.mid = l.program.nextId t.sending ∧
      l'.program.ep.askedOffset = l.program.ep.askedOffset := by
  obtain ⟨l₁, waiting₁, hbefore, hlags, hep⟩ : ∃ l₁ waiting₁, l.deliver std t.before = .ok l₁ ∧ _ :=
    h.deliver t.before
  obtain ⟨w, d, hsends, hsent, -, hsocket, hmid, hoffset, hexpecting⟩ :
      ∃ w d, l₁.program.turn std t.sending = .ok w ∧ _ :=
    hlags.trailing.asks hfit hleast hserver hlags.named hworks.sending hworks.sendOk
  have hmidway : (l₁.answer server w).Midway least resource k j waiting₁ := by
    refine ⟨hlags.late, ?_, hsocket.trans hlags.socket⟩
    rw [answer, hsent, List.drop_left, List.map_singleton, ← List.append_assoc]
    exact hexpecting
  obtain ⟨l₂, waiting₂, hbetween, hmidway₂, hep₂⟩ :
      ∃ l₂ waiting₂, (l₁.answer server w).deliver std t.between = .ok l₂ ∧ _ := hmidway.deliver t.between
  refine ⟨l₂, waiting₂, bind_eq_ok.mpr ⟨l₁, hbefore, bind_eq_ok.mpr ⟨w, hsends, hbetween⟩⟩, hmidway₂, ?_, ?_⟩
  · rw [hep₂, Program.nextId, ← hep]
    exact hmid
  · rw [hep₂, ← hep]
    exact hoffset

omit hfit hleast hserver in
/-- **The second half of a round**. -/
theorem Midway.receives (h : l.Midway least resource k j waiting) (hworks : t.Works)
    (hid : l.program.ep.mid ≠ 0) :
    ∃ l', l.receives std t = .ok l' ∧ Turned least resource k j l.program.ep.mid l l' := by
  have hreceives {p : Program} (hturn : l.program.turn std t.receiving = .ok p) :
      l.receives std t = .ok { l with program := p, late := if l.isLate then l.late + 1 else l.late } :=
    bind_eq_ok.mpr ⟨p, hturn, rfl⟩
  cases waiting with
  | nil =>
    have hlate : l.isLate = true := by
      rw [isLate, h.expecting.goes.quit, h.socket]
      rfl
    obtain ⟨q, hturn, hsocket, ⟨-, hnext, hoffset, hmid⟩ | ⟨hlast, hends⟩⟩ :
        ∃ q, l.program.turn std t.receiving = .ok q ∧ _ := h.expecting.misses h.socket hworks.receiving
    · refine ⟨_, hreceives hturn, .again (.inl rfl) ⟨?_, hnext, hsocket, ?_⟩ hoffset hmid⟩
      · rw [hlate, h.late]
        rfl
      · exact fun hzero => absurd (hmid.symm.trans hzero) hid
    · refine ⟨_, hreceives hturn, .gaveUp hlast (.inl ?_) hends⟩
      rw [hlate, h.late]
      rfl
  | cons d waiting =>
    have hlate : l.isLate = false := by
      rw [isLate, h.socket]
      exact Bool.and_false _
    have hkept : (if l.isLate then l.late + 1 else l.late) = k := by
      rw [hlate, h.late]
      rfl
    obtain ⟨q, hturn, hsocket, -, houtcome⟩ : ∃ q, l.program.turn std t.receiving = .ok q ∧ _ :=
      h.expecting.receives h.socket hworks.receiving
    refine ⟨_, hreceives hturn, ?_⟩
    cases houtcome with
    | again stray next offset mid =>
      exact .again (.inr ⟨rfl, stray⟩)
        ⟨hkept, next, hsocket, fun hzero => absurd (mid.symm.trans hzero) hid⟩ offset mid
    | gaveUp stray last ends => exact .gaveUp last (.inr ⟨hkept, stray⟩) ends
    | stored answer next gained mid =>
      exact .stored answer (fun hnamed => ⟨hkept, next, hsocket, fun hzero => absurd hzero hnamed⟩)
        next.asking.inside gained mid
    | done answer ends mid => exact .done answer hkept ends

/-- **One round**. -/
theorem Lags.round (h : l.Lags least resource k j waiting) (hworks : t.Works)
    (hid : l.program.nextId t.sending ≠ 0) :
    ∃ l', l.round std server t = .ok l' ∧
      Turned least resource k j (l.program.nextId t.sending) l l' := by
  obtain ⟨l₁, waiting₁, hsends, hmidway, hmid, hoffset⟩ := h.sends hfit hleast hserver hworks
  obtain ⟨l', hreceives, houtcome⟩ := hmidway.receives hworks (hmid ▸ hid)
  refine ⟨l', bind_eq_ok.mpr ⟨l₁, hsends, hreceives⟩, ?_⟩
  rw [hmid] at houtcome
  exact houtcome.congr hoffset

/-- **The rounds of a transfer**: the program is done after no more than four late answers, or goes on and has
not had `late + 1` rounds for each block, or has given up after five late answers. -/
theorem Lags.rounds (h : l.Lags least resource k j waiting)
    (hall : resource.length ≤ l.program.ep.askedOffset + least * m)
    (hids : ∀ t ∈ ts.head?, l.program.nextId t.sending ≠ 0 ∧
      (l.program.nextId t.sending).toNat + m ≤ 65536) (hworks : ∀ t ∈ ts, t.Works) :
    ∃ l', l.rounds std server ts = .ok l' ∧ k ≤ l'.late ∧
      ((l'.late ≤ 4 ∧ ∃ code, l'.program.Closing .complete resource code) ∨
        (ts.length + j < (l'.late + 1) * m ∧
          ∃ j' waiting', l'.Lags least resource l'.late j' waiting') ∨
        (5 ≤ l'.late ∧ ∃ n < resource.length,
          l'.program.Closing .error (resource.take n) .coapTimeout)) := by
  induction ts generalizing l j k m waiting with
  | nil =>
    have hle := h.le
    have hinside := h.trailing.asking.inside
    have hmore : 0 < m := by
      rw [Nat.pos_iff_ne_zero]
      rintro rfl
      omega
    refine ⟨l, rfl, h.late.ge, .inr (.inl ⟨?_, j, waiting, h.late.symm ▸ h⟩)⟩
    rw [List.length_nil, h.late]
    calc 0 + j < k + 1 := by omega
      _ ≤ (k + 1) * m := Nat.le_mul_of_pos_right _ hmore
  | cons t ts ih =>
    have hle := h.le
    obtain ⟨hfirst, hothers⟩ := List.forall_mem_cons.mp hworks
    obtain ⟨hid, hroom⟩ := hids t rfl
    obtain ⟨l₁, hround, houtcome⟩ := h.round hfit hleast hserver hfirst hid
    cases houtcome with
    | @again k' waiting₁ count next offset mid =>
      have hnext : ∀ t' ∈ ts.head?, l₁.program.nextId t'.sending ≠ 0 ∧
          (l₁.program.nextId t'.sending).toNat + m ≤ 65536 := by
        intro t' _
        rw [Program.nextId, mid, if_neg hid]
        exact ⟨hid, hroom⟩
      obtain ⟨l', hrest, hlate, hcases⟩ := ih next (offset ▸ hall) hnext hothers
      refine ⟨l', foldlM_cons_eq_ok.mpr ⟨l₁, hround, hrest⟩, by omega, ?_⟩
      refine hcases.imp_right (Or.imp_left fun ⟨hcount, hgoes⟩ => ⟨?_, hgoes⟩)
      rw [List.length_cons]
      omega
    | gaveUp last count ends =>
      obtain ⟨l', hrest, hlate, hends⟩ := closing_rounds ends (.inr rfl) hothers
      refine ⟨l', foldlM_cons_eq_ok.mpr ⟨l₁, hround, hrest⟩, by omega, .inr (.inr ⟨by omega, ?_⟩)⟩
      exact ⟨_, h.trailing.asking.inside, hends⟩
    | stored answer next inside gained mid =>
      -- a block that is not the last one leaves room for one more id
      obtain ⟨m, rfl⟩ : ∃ m', m = m' + 1 := by
        refine Nat.exists_eq_add_one.mpr (Nat.pos_of_ne_zero ?_)
        rintro rfl
        omega
      rw [Nat.mul_succ] at hall
      have hmore : m ≠ 0 := by
        rintro rfl
        omega
      have hmid : l₁.program.ep.mid.toNat = (l.program.nextId t.sending).toNat + 1 := by
        rw [mid, UInt16.toNat_add, show (1 : UInt16).toNat = 1 from rfl]
        omega
      have hnamed : l₁.program.ep.mid ≠ 0 := by
        intro hzero
        rw [hzero] at hmid
        exact absurd hmid (Nat.succ_ne_zero _).symm
      have hnext : ∀ t' ∈ ts.head?, l₁.program.nextId t'.sending ≠ 0 ∧
          (l₁.program.nextId t'.sending).toNat + m ≤ 65536 := by
        intro t' _
        rw [Program.nextId, if_neg hnamed]
        exact ⟨hnamed, by omega⟩
      obtain ⟨l', hrest, hlate, hcases⟩ := ih (next hnamed) (by omega) hnext hothers
      refine ⟨l', foldlM_cons_eq_ok.mpr ⟨l₁, hround, hrest⟩, hlate, ?_⟩
      refine hcases.imp_right (Or.imp_left fun ⟨hcount, hgoes⟩ => ⟨?_, hgoes⟩)
      rw [List.length_cons, Nat.mul_succ]
      omega
    | done answer count ends =>
      obtain ⟨l', hrest, hlate, hends⟩ := closing_rounds ends (.inl rfl) hothers
      exact ⟨l', foldlM_cons_eq_ok.mpr ⟨l₁, hround, hrest⟩, by omega, .inl ⟨by omega, _, hends⟩⟩

/-- **Behind five late answers** the program gives up. -/
theorem Lags.exhausts (h : l.Lags least resource k j waiting) (hk : 5 ≤ k) (hworks : ∀ t ∈ ts, t.Works)
    (hlong : 5 ≤ ts.length + j) :
    ∃ l' n, l.rounds std server ts = .ok l' ∧ n < resource.length ∧
      l'.program.Closing .error (resource.take n) .coapTimeout := by
  induction ts generalizing l j k waiting with
  | nil =>
    have hle := h.le
    rw [List.length_nil] at hlong
    omega
  | cons t ts ih =>
    have hle := h.le
    rw [List.length_cons] at hlong
    obtain ⟨hfirst, hothers⟩ := List.forall_mem_cons.mp hworks
    have hnamed : l.program.ep.mid ≠ 0 := by
      intro hzero
      obtain ⟨before, hbefore, strays, answers, hqueue, hstrays, hanswers, -⟩ := h.trailing.queue
      rw [h.named hzero] at hqueue
      obtain ⟨rfl, rfl⟩ := List.append_eq_nil_iff.mp hqueue.symm
      rw [List.length_nil] at hstrays hanswers
      omega
    have hid : l.program.nextId t.sending ≠ 0 := by
      rw [Program.nextId, if_neg hnamed]
      exact hnamed
    obtain ⟨l₁, hround, houtcome⟩ := h.round hfit hleast hserver hfirst hid
    cases houtcome with
    | again count next offset mid =>
      obtain ⟨l', n, hrest, hends⟩ := ih next (by omega) hothers (by omega)
      exact ⟨l', n, foldlM_cons_eq_ok.mpr ⟨l₁, hround, hrest⟩, hends⟩
    | gaveUp last count ends =>
      obtain ⟨l', hrest, -, hends⟩ := closing_rounds ends (.inr rfl) hothers
      exact ⟨l', _, foldlM_cons_eq_ok.mpr ⟨l₁, hround, hrest⟩, h.trailing.asking.inside, hends⟩
    | stored answer => omega
    | done answer => omega

end Rounds

/-- A launched program on a network on which nothing is under way. -/
def fresh (p : Program) : Line := ⟨p, [], 0⟩

/-- **A launched program** trails by nothing. -/
theorem launch_lags {path buffer : List UInt8} {port : UInt16}
    (hlaunch : Program.launch path port buffer = .ok p) (hbuffer : buffer.length = bufferMaxSize)
    (hpath : p.ep.destUri.LegalPath)
    (hroom : (p.ep.destUri.uri.asString.map Endpoint.segmentSize).sum + Endpoint.requestOverhead ≤
      bufferMaxSize) (hresource : resource ≠ []) :
    (fresh p).Lags least resource 0 0 [] ∧ p.ep.mid = 0 := by
  have hfirst : p.Between least resource 0 :=
    Program.launch_between hlaunch hbuffer hpath hroom hresource
  have hqueue : Program.Queue least resource p.ep.mid p.ep.askedOffset 0 0 [] :=
    ⟨[], [], rfl, rfl, rfl, fun d hd => absurd hd List.not_mem_nil,
      fun d hd => absurd hd List.not_mem_nil⟩
  refine ⟨⟨rfl, ⟨hfirst.goes, hfirst.silent, hfirst.asking, hfirst.turn, hfirst.attempts, 0, rfl, hqueue⟩,
    hfirst.empty, fun _ => rfl⟩, ?_⟩
  obtain ⟨e₀, hcreate, rfl, -⟩ := Program.launch_follows hlaunch
  obtain ⟨-, -, -, hcore⟩ := Endpoint.create_inv hcreate
  exact congrArg Endpoint.Core.mid hcore

/-- **Delays add up, and four of them are tolerated.** On a network that loses, duplicates and reorders
nothing, and as long as the message ids do not wrap around, the program downloads the resource, if the
answers of no more than four rounds are late, as soon as there has been one round more for each block than
answers were late. -/
theorem delays_tolerated {path buffer : List UInt8} {port : UInt16}
    (hlaunch : Program.launch path port buffer = .ok p) (hbuffer : buffer.length = 2500)
    (hpath : ∀ segment ∈ p.ep.destUri.uri.asString, segment.length ≤ 256)
    (hroom : (p.ep.destUri.uri.asString.map Endpoint.segmentSize).sum + 22 ≤ 2500)
    (hserver : Serves limit least resource server)
    (hfit : Endpoint.NumbersFit limit least resource) (hpos : 0 < least) (hleast : least ≤ 2048)
    (hresource : resource ≠ []) (hworks : ∀ t ∈ ts, t.Works)
    (hids : ∀ t ∈ ts.head?, t.sending.messageId ≠ 0 ∧
      t.sending.messageId.toNat + (resource.length / least + 1) ≤ 65536) (hselect : s.failed = none) :
    ∃ l, (fresh p).rounds std server ts = .ok l ∧
      (l.late ≤ 4 → (l.late + 1) * (resource.length / least + 1) ≤ ts.length →
        ∃ p', l.program.turn std s = .ok p' ∧ p'.quit = true ∧ p'.ep.isComplete = true ∧
          p'.ep.downloaded = resource) := by
  obtain ⟨hfirst, hzero⟩ : (fresh p).Lags least resource 0 0 [] ∧ p.ep.mid = 0 :=
    launch_lags hlaunch hbuffer hpath hroom hresource
  have hall : resource.length ≤ p.ep.askedOffset + least * (resource.length / least + 1) :=
    (Nat.lt_mul_div_succ resource.length hpos).le.trans (Nat.le_add_left _ _)
  have hnames : ∀ t ∈ ts.head?, p.nextId t.sending ≠ 0 ∧
      (p.nextId t.sending).toNat + (resource.length / least + 1) ≤ 65536 := by
    intro t ht
    rw [Program.nextId, if_pos hzero]
    exact hids t ht
  obtain ⟨l, hrun, -, ⟨-, code, hends⟩ | ⟨hcount, -⟩ | ⟨hlate, -⟩⟩ :=
    hfirst.rounds hfit hleast hserver hall hnames hworks
  · obtain ⟨p', hturn, hends, hquit⟩ := hends.turn (.inl rfl) hselect
    exact ⟨l, hrun, fun _ _ => ⟨p', hturn, hquit, decide_eq_true (hends.entered hquit), hends.stored⟩⟩
  · exact ⟨l, hrun, fun _ henough => by omega⟩
  · exact ⟨l, hrun, fun hfew => by omega⟩

/-! ### A sample transfer -/

/-- A round in which at most `n` answers arrive. -/
def samplePace (n : Nat) : Pace := ⟨0, ⟨none, 0, 1, true⟩, n, ⟨none, 0, 1, true⟩⟩

/-- Such rounds work. -/
theorem samplePace_works {ns : List Nat} : ∀ t ∈ ns.map samplePace, t.Works := by
  intro t ht
  obtain ⟨n, -, rfl⟩ := List.mem_map.mp ht
  exact ⟨rfl, rfl, rfl⟩

/-- They leave room for the ids of two blocks. -/
theorem samplePace_ids {ns : List Nat} : ∀ t ∈ (ns.map samplePace).head?, t.sending.messageId ≠ 0 ∧
    t.sending.messageId.toNat + (Endpoint.sampleResource.length / 16 + 1) ≤ 65536 := by
  intro t ht
  obtain ⟨n, -, rfl⟩ := List.mem_map.mp (List.mem_of_mem_head? ht)
  have hone : (1 : UInt16) ≠ 0 ∧
      (1 : UInt16).toNat + (Endpoint.sampleResource.length / 16 + 1) ≤ 65536 := by decide
  exact hone

/-- The sample program downloads its resource although its first answer comes late. -/
theorem delays_tolerated_sample :
    ∃ p l p', Program.sampleProgram = .ok p ∧
      (fresh p).rounds .insertion Program.sampleServer ([0, 1, 1, 1].map samplePace) = .ok l ∧
      l.late = 1 ∧ l.program.turn .insertion ⟨none, 0, 1, true⟩ = .ok p' ∧ p'.quit = true ∧
      p'.ep.isComplete = true ∧ p'.ep.downloaded = Endpoint.sampleResource := by
  obtain ⟨p, hlaunch, hpath, hroom⟩ := Program.sampleProgram_room
  have hbuffer : (List.replicate bufferMaxSize (0 : UInt8)).length = 2500 := by
    rw [List.length_replicate, bufferMaxSize]
  have hlate : (Program.sampleProgram >>= fun p =>
      (fresh p).rounds .insertion Program.sampleServer ([0, 1, 1, 1].map samplePace)).map Line.late =
      .ok 1 := by
    decide +kernel
  obtain ⟨l, hrun, hends⟩ :
      ∃ l, (fresh p).rounds .insertion Program.sampleServer ([0, 1, 1, 1].map samplePace) = .ok l ∧ _ :=
    delays_tolerated (s := ⟨none, 0, 1, true⟩) hlaunch hbuffer hpath hroom Program.sampleServer_serves
      Program.sampleServer_fits (by decide) (by decide) (by decide) samplePace_works samplePace_ids rfl
  rw [hlaunch, ok_bind, hrun] at hlate
  have hone : l.late = 1 := Except.ok.inj hlate
  obtain ⟨p', hturn, hquit, hcomplete, hfile⟩ := hends (by omega) (by rw [hone]; decide)
  exact ⟨p, l, p', hlaunch, hrun, hone, hturn, hquit, hcomplete, hfile⟩

/-- **The fifth late answer ends a transfer.** Once the answers of five rounds have been late, whatever came
between them, the program gives up with the code of a timeout within five more rounds, although nothing has
been lost, and its file is a part of the resource. -/
theorem delays_end {path buffer : List UInt8} {port : UInt16} {after : List Pace}
    (hlaunch : Program.launch path port buffer = .ok p) (hbuffer : buffer.length = 2500)
    (hpath : ∀ segment ∈ p.ep.destUri.uri.asString, segment.length ≤ 256)
    (hroom : (p.ep.destUri.uri.asString.map Endpoint.segmentSize).sum + 22 ≤ 2500)
    (hserver : Serves limit least resource server)
    (hfit : Endpoint.NumbersFit limit least resource) (hpos : 0 < least) (hleast : least ≤ 2048)
    (hresource : resource ≠ []) (hworks : ∀ t ∈ ts ++ after, t.Works)
    (hids : ∀ t ∈ ts.head?, t.sending.messageId ≠ 0 ∧
      t.sending.messageId.toNat + (resource.length / least + 1) ≤ 65536)
    (hrun : (fresh p).rounds std server ts = .ok l) (hlate : 5 ≤ l.late) (hafter : 5 ≤ after.length)
    (hselect : s.failed = none) :
    ∃ l' p', l.rounds std server after = .ok l' ∧ l'.program.turn std s = .ok p' ∧ p'.quit = true ∧
      p'.ep.isError = true ∧ p'.ep.error = .coapTimeout ∧ p'.ep.downloaded <+: resource ∧
      p'.ep.downloaded ≠ resource := by
  rw [List.forall_mem_append] at hworks
  obtain ⟨hfirst, hzero⟩ : (fresh p).Lags least resource 0 0 [] ∧ p.ep.mid = 0 :=
    launch_lags hlaunch hbuffer hpath hroom hresource
  have hall : resource.length ≤ p.ep.askedOffset + least * (resource.length / least + 1) :=
    (Nat.lt_mul_div_succ resource.length hpos).le.trans (Nat.le_add_left _ _)
  have hnames : ∀ t ∈ ts.head?, p.nextId t.sending ≠ 0 ∧
      (p.nextId t.sending).toNat + (resource.length / least + 1) ≤ 65536 := by
    intro t ht
    rw [Program.nextId, if_pos hzero]
    exact hids t ht
  obtain ⟨l₁, hrun₁, -, hcases⟩ := hfirst.rounds hfit hleast hserver hall hnames hworks.1
  obtain rfl := Except.ok.inj (hrun.symm.trans hrun₁)
  obtain ⟨l', n, hrest, hinside, hends⟩ : ∃ l' n, l.rounds std server after = .ok l' ∧
      n < resource.length ∧ l'.program.Closing .error (resource.take n) .coapTimeout := by
    rcases hcases with ⟨hfew, -⟩ | ⟨-, j, waiting, hgoes⟩ | ⟨-, n, hinside, hends⟩
    · omega
    · exact hgoes.exhausts hfit hleast hserver hlate hworks.2 (by omega)
    · obtain ⟨l', hrest, -, hends⟩ := closing_rounds hends (.inr rfl) hworks.2
      exact ⟨l', n, hrest, hinside, hends⟩
  obtain ⟨p', hturn, hends, hquit⟩ := hends.turn (.inr rfl) hselect
  exact ⟨l', p', hrest, hturn, hquit, decide_eq_true (hends.entered hquit), hends.error,
    hends.part hinside⟩

/-- The sample program gives up when nothing comes in its first five rounds, although all of it comes then. -/
theorem delays_end_sample :
    ∃ p l l' p', Program.sampleProgram = .ok p ∧
      (fresh p).rounds .insertion Program.sampleServer ([0, 0, 0, 0, 0].map samplePace) = .ok l ∧
      l.rounds .insertion Program.sampleServer ([9, 9, 9, 9, 9].map samplePace) = .ok l' ∧
      l'.program.turn .insertion ⟨none, 0, 1, true⟩ = .ok p' ∧ p'.ep.isError = true ∧
      p'.ep.error = .coapTimeout ∧ p'.ep.downloaded ≠ Endpoint.sampleResource := by
  obtain ⟨p, hlaunch, hpath, hroom⟩ := Program.sampleProgram_room
  have hbuffer : (List.replicate bufferMaxSize (0 : UInt8)).length = 2500 := by
    rw [List.length_replicate, bufferMaxSize]
  have hlate : (Program.sampleProgram >>= fun p =>
      (fresh p).rounds .insertion Program.sampleServer ([0, 0, 0, 0, 0].map samplePace)).map Line.late =
      .ok 5 := by
    decide +kernel
  obtain ⟨l, hrun, hfive⟩ := map_eq_ok hlate
  rw [hlaunch, ok_bind] at hrun
  obtain ⟨l', p', hrest, hturn, -, herror, hcode, -, hfile⟩ :
      ∃ l' p', l.rounds .insertion Program.sampleServer ([9, 9, 9, 9, 9].map samplePace) = .ok l' ∧
        l'.program.turn .insertion ⟨none, 0, 1, true⟩ = .ok p' ∧ _ :=
    delays_end hlaunch hbuffer hpath hroom Program.sampleServer_serves Program.sampleServer_fits
      (by decide) (by decide) (by decide)
      (List.forall_mem_append.mpr ⟨samplePace_works, samplePace_works⟩) samplePace_ids hrun (by omega)
      (by decide) rfl
  exact ⟨p, l, l', p', hlaunch, hrun, hrest, hturn, herror, hcode, hfile⟩

end Line

end LibCoap
