import LibCoap.Application.Backlog

/-! # What one duplicate does to a transfer

A network that duplicates one answer and otherwise loses nothing makes the program ask twice for every block
that is left, since the answer to the second request is a stray datagram for the next block
(`Program.duplicates_persist`). More than four duplicates use up all attempts, and the program gives up
although nothing was lost (`Program.duplicates_end`). -/

namespace LibCoap

open Machine Wire

namespace Program

variable {std : StdSort} {least limit j k m : Nat} {resource : List UInt8}
  {server : List UInt8 → List UInt8} {p q w : Program} {s : Surroundings} {r : Round} {rs : List Round}
  {queue : List (List UInt8)}

/-! ## Rounds with a backlog at the socket -/

/-- **A program that trails by `k`** while everything that is under way waits at its socket. -/
structure Backlogged (least : Nat) (resource : List UInt8) (k j : Nat) (queue : List (List UInt8))
    (p : Program) : Prop where
  trailing : p.Trailing least resource k j queue
  socket : p.socket = queue.map Arrival.datagram
  named : p.ep.mid ≠ 0

/-- The ids of `n` blocks in a row, each of which is asked for `times` times. -/
def repeated (times : Nat) : UInt16 → Nat → List (Option UInt16)
  | _, 0 => []
  | mid, n + 1 => List.replicate times (some mid) ++ repeated times (mid + 1) n

/-- A round in which nothing is lost. -/
structure Delivers (r : Round) : Prop where
  works : r.Works
  kept : r.lost = false

section Rounds

variable (hfit : Endpoint.NumbersFit limit least resource) (hleast : least ≤ blockMaxSize)
  (hserver : Serves limit least resource server)

include hfit hleast hserver

/-- **One round**: a request is sent, and what has waited longest is received. -/
theorem Backlogged.round (h : p.Backlogged least resource k j queue) (hdelivers : Delivers r) :
    ∃ q d queue', p.round std server r = .ok q ∧ q.socket = queue'.map Arrival.datagram ∧
      q.ep.conn.sent = p.ep.conn.sent ++ [d] ∧ datagramId d = some p.ep.mid ∧
      Trailed least resource k j queue' p q := by
  obtain ⟨w, d, hsends, hsent, hname, hsocket, hmid, hoffset, hexpecting⟩ :=
    h.trailing.asks hfit hleast hserver (fun hzero => absurd hzero h.named) hdelivers.works.sending
      hdelivers.works.sendOk
  rw [nextId, if_neg h.named] at hmid
  have hlast : w.ep.conn.sent.getLast? = some d := by rw [hsent, List.getLast?_concat]
  have harrives := @answered_arrives std server w d hlast
  obtain ⟨first, queue', hqueue⟩ : ∃ first queue', queue ++ [server d] = first :: queue' :=
    List.exists_cons_of_ne_nil (by simp)
  have hfull : w.socket ++ [Arrival.datagram (server d)] =
      .datagram first :: queue'.map Arrival.datagram := by
    rw [hsocket, h.socket, ← List.map_singleton, ← List.map_append, hqueue, List.map_cons]
  rw [hqueue] at hexpecting
  obtain ⟨q, hreceives, hrest, hkept, houtcome⟩ :=
    (hexpecting.arrives [.datagram (server d)]).receives hfull hdelivers.works.receiving
  rw [← hdelivers.kept] at harrives
  refine ⟨q, d, queue', bind_eq_ok.mpr ⟨w, hsends, bind_eq_ok.mpr ⟨_, harrives, hreceives⟩⟩, hrest,
    hkept.trans hsent, hmid ▸ hname, houtcome.congr hoffset.symm hmid.symm⟩

/-- **The rounds of one block**: it is asked for once for each duplicate and once more. -/
theorem Backlogged.block (h : p.Backlogged least resource k j queue) (hk : k ≤ 4)
    (hdelivers : ∀ r ∈ rs, Delivers r) (hlength : rs.length + j = k + 1) :
    ∃ q ds queue', p.rounds std server rs = .ok q ∧ q.socket = queue'.map Arrival.datagram ∧
      q.ep.conn.sent = p.ep.conn.sent ++ ds ∧
      ds.map datagramId = List.replicate rs.length (some p.ep.mid) ∧
      Trailed least resource k k queue' p q := by
  induction rs generalizing p j queue with
  | nil =>
    -- the block has not been asked for more often than there are duplicates
    obtain ⟨before, hbefore, -⟩ := h.trailing.queue
    rw [List.length_nil] at hlength
    omega
  | cons r rs ih =>
    rw [List.length_cons] at hlength
    obtain ⟨hfirst, hothers⟩ := List.forall_mem_cons.mp hdelivers
    obtain ⟨p₁, d, queue₁, hround, hsocket, hsent, hid, houtcome⟩ :=
      h.round hfit hleast hserver hfirst
    have hend (hj : j = k) (hq : Trailed least resource k k queue₁ p p₁) :
        ∃ q ds queue', p.rounds std server (r :: rs) = .ok q ∧
          q.socket = queue'.map Arrival.datagram ∧ q.ep.conn.sent = p.ep.conn.sent ++ ds ∧
          ds.map datagramId = List.replicate (rs.length + 1) (some p.ep.mid) ∧
          Trailed least resource k k queue' p q := by
      obtain rfl : rs = [] := List.length_eq_zero_iff.mp (by omega)
      exact ⟨p₁, [d], queue₁, foldlM_cons_eq_ok.mpr ⟨p₁, hround, rfl⟩, hsocket, hsent,
        by rw [List.map_singleton, hid]; rfl, hq⟩
    cases houtcome with
    | again stray next offset mid =>
      obtain ⟨q, ds, queue', hrounds, hsocket', hsent', hids, hq⟩ :=
        ih ⟨next, hsocket, mid ▸ h.named⟩ hothers (by omega)
      refine ⟨q, d :: ds, queue', foldlM_cons_eq_ok.mpr ⟨p₁, hround, hrounds⟩, hsocket', ?_, ?_,
        hq.congr offset.symm mid.symm⟩
      · rw [hsent', hsent, List.append_assoc]
        rfl
      · rw [List.map_cons, hid, hids, mid, List.length_cons, List.replicate_succ]
    | gaveUp stray last => omega
    | stored answer next gained mid => exact hend answer (.stored rfl next gained mid)
    | done answer ends mid => exact hend answer (.done rfl ends mid)

/-- **All rounds that are left**, as long as the message ids do not wrap around: every block is asked for once
for each duplicate and once more, and the whole resource is stored. -/
theorem Backlogged.transfer (h : p.Backlogged least resource k 0 queue) (hk : k ≤ 4)
    (hdelivers : ∀ r ∈ rs, Delivers r) (hall : resource.length ≤ p.ep.askedOffset + least * m)
    (hids : p.ep.mid.toNat + m ≤ 65536) (henough : (k + 1) * m ≤ rs.length) :
    ∃ n q ds code, 0 < n ∧ n ≤ m ∧ p.rounds std server (rs.take ((k + 1) * n)) = .ok q ∧
      q.Closing .complete resource code ∧ q.ep.conn.sent = p.ep.conn.sent ++ ds ∧
      ds.map datagramId = repeated (k + 1) p.ep.mid n := by
  induction m generalizing p rs queue with
  | zero =>
    have hinside := h.trailing.asking.inside
    omega
  | succ m ih =>
    rw [Nat.mul_succ] at henough hall
    have hlength : (rs.take (k + 1)).length = k + 1 := by
      rw [List.length_take]
      omega
    obtain ⟨q, ds, queue', hblock, hsocket, hsent, hnames, houtcome⟩ := h.block hfit hleast hserver hk
      (fun r hr => hdelivers r (List.mem_of_mem_take hr)) hlength
    rw [hlength] at hnames
    cases houtcome with
    | again stray => exact absurd stray (Nat.lt_irrefl k)
    | gaveUp stray => exact absurd stray (Nat.lt_irrefl k)
    | done answer ends mid =>
      refine ⟨1, q, ds, _, Nat.one_pos, Nat.succ_le_succ (Nat.zero_le m), ?_, ends, hsent, ?_⟩
      · rw [Nat.mul_one]
        exact hblock
      · rw [hnames, repeated, repeated, List.append_nil]
    | stored answer next gained mid =>
      -- a block that is not the last one leaves room for one more id
      have hinside := next.asking.inside
      have hmore : m ≠ 0 := by
        rintro rfl
        omega
      have hnext : q.ep.mid.toNat = p.ep.mid.toNat + 1 := by
        rw [mid, UInt16.toNat_add, show (1 : UInt16).toNat = 1 from rfl]
        omega
      have hnamed : q.ep.mid ≠ 0 := by
        intro hzero
        rw [hzero] at hnext
        exact absurd hnext (Nat.succ_ne_zero _).symm
      obtain ⟨n, q', ds', code, -, hle, hrest, hends, hsent', hnames'⟩ :=
        @ih q (rs.drop (k + 1)) queue' ⟨next, hsocket, hnamed⟩
          (fun r hr => hdelivers r (List.mem_of_mem_drop hr)) (by omega) (by omega)
          (by rw [List.length_drop]; omega)
      refine ⟨n + 1, q', ds ++ ds', code, Nat.succ_pos n, Nat.succ_le_succ hle, ?_, hends, ?_, ?_⟩
      · rw [Nat.mul_succ, Nat.add_comm, List.take_add]
        exact foldlM_append_eq_ok.mpr ⟨q, hblock, hrest⟩
      · rw [hsent', hsent, List.append_assoc]
      · rw [List.map_append, hnames, hnames', mid, repeated]

/-- **More duplicates than attempts**: the program gives up. -/
theorem Backlogged.exhausts (h : p.Backlogged least resource k j queue) (hk : 5 ≤ k)
    (hdelivers : ∀ r ∈ rs, Delivers r) (hlong : 5 ≤ rs.length + j) :
    ∃ q, p.rounds std server rs = .ok q ∧
      q.Closing .error (resource.take p.ep.askedOffset) .coapTimeout := by
  have hattempts : p.ep.attempts ≤ 4 := h.trailing.asking.inv.attempts
  rw [h.trailing.attempts] at hattempts
  induction rs generalizing p j queue with
  | nil =>
    rw [List.length_nil] at hlong
    omega
  | cons r rs ih =>
    rw [List.length_cons] at hlong
    obtain ⟨hfirst, hothers⟩ := List.forall_mem_cons.mp hdelivers
    obtain ⟨p₁, d, queue₁, hround, hsocket, -, -, houtcome⟩ := h.round hfit hleast hserver hfirst
    cases houtcome with
    | again stray next offset mid =>
      have hnext : p₁.ep.attempts ≤ 4 := next.asking.inv.attempts
      rw [next.attempts] at hnext
      obtain ⟨q, hrest, hends⟩ := ih ⟨next, hsocket, mid ▸ h.named⟩ hothers (by omega) hnext
      rw [offset] at hends
      exact ⟨q, foldlM_cons_eq_ok.mpr ⟨p₁, hround, hrest⟩, hends⟩
    | gaveUp stray last ends =>
      obtain ⟨q, hrest, hends⟩ := ends.rounds (.inr rfl) fun r hr => (hothers r hr).works
      exact ⟨q, foldlM_cons_eq_ok.mpr ⟨p₁, hround, hrest⟩, hends⟩
    | stored answer => omega
    | done answer => omega

end Rounds

/-! ## A duplicated answer -/

/-- A round whose answer arrives once and `k` times more. -/
def duplicated (std : StdSort) (server : List UInt8 → List UInt8) (k : Nat) (p : Program) (r : Round) :
    Exec Program := do
  let p ← p.step std (.turn r.sending)
  let p ← p.run std (List.replicate (k + 1) (p.answered server false)).flatten
  p.step std (.turn r.receiving)

/-- **A round with duplicates** leaves them at the socket. -/
theorem Between.duplicated {a : Nat} (h : p.Between least resource a)
    (hfit : Endpoint.NumbersFit limit least resource) (hleast : least ≤ blockMaxSize)
    (hserver : Serves limit least resource server) (hworks : r.Works) :
    ∃ q, p.duplicated std server k r = .ok q ∧
      ((q.ep.Asking least resource ∧ q.ep.nextState = .sendRequest ∧
          p.ep.askedOffset + least ≤ q.ep.askedOffset ∧
          (q.ep.mid ≠ 0 → ∃ queue, q.Backlogged least resource k 0 queue)) ∨
        ∃ code, q.Closing .complete resource code) := by
  obtain ⟨p₁, hsends, hawaits, hasked⟩ := h.sends hfit hleast hworks.sending hworks.sendOk
  obtain ⟨d, size, hlast, hrequest, hsize⟩ := hawaits.request
  have hanswer := hserver hrequest hawaits.asking.inside hsize
  have hevents : (List.replicate (k + 1) (p₁.answered server false)).flatten =
      List.replicate (k + 1) (Event.arrive (.datagram (server d))) := by
    rw [answered, if_neg Bool.false_ne_true, hlast]
    exact List.flatten_replicate_singleton
  have harrives := @run_arrivals std (List.replicate (k + 1) (.datagram (server d))) p₁
  rw [List.map_replicate, ← hevents] at harrives
  have hgoes : ({ p₁ with socket := p₁.socket ++ List.replicate (k + 1) (.datagram (server d)) } :
      Program).Goes := ⟨hawaits.goes.stdin, hawaits.goes.quit, hawaits.goes.free⟩
  have hsocket : p₁.socket ++ List.replicate (k + 1) (.datagram (server d)) =
      .datagram (server d) :: (List.replicate k (server d)).map Arrival.datagram := by
    rw [hawaits.empty, List.nil_append, List.map_replicate]
    rfl
  obtain ⟨q, hq, hrest, hstored⟩ :=
    hgoes.takes hawaits.asking hawaits.turn hsocket hanswer hworks.receiving
  refine ⟨q, bind_eq_ok.mpr ⟨p₁, hsends, bind_eq_ok.mpr ⟨_, harrives, hq⟩⟩, ?_⟩
  have hoffset := hasked.offset
  rcases hstored.outcome with ⟨hasking, hnext, hattempts, hgained, hmid⟩ | ⟨hnext, hfile, -⟩
  · refine .inl ⟨hasking, hnext, hoffset ▸ hgained, fun hnamed => ⟨List.replicate k (server d), ?_⟩⟩
    have hqueue : Queue least resource q.ep.mid q.ep.askedOffset k 0 (List.replicate k (server d)) := by
      have hanswers : ∀ d' ∈ List.replicate k (server d),
          AnswersAt least resource p₁.ep.mid p₁.ep.askedOffset d' := by
        intro d' hd'
        rw [List.eq_of_mem_replicate hd']
        exact ⟨size, hanswer⟩
      have hstray := @queue_of_stored least resource _ _ _ q.ep.askedOffset hawaits.asking.inside hanswers
      rw [List.length_replicate, ← hmid] at hstray
      exact hstray
    exact ⟨⟨hstored.goes, hstored.silent, hasking, hnext, hattempts, k, rfl, hqueue⟩, hrest, hnamed⟩
  · exact .inr ⟨_, hfile, rfl, .inr ⟨hstored.goes, hnext⟩⟩

/-- **Behind a round with duplicates** a program that asks for more trails them. -/
theorem Between.trails {a : Nat} (h : p.Between least resource a)
    (hfit : Endpoint.NumbersFit limit least resource) (hleast : least ≤ blockMaxSize)
    (hserver : Serves limit least resource server) (hworks : r.Works)
    (hdup : p.duplicated std server k r = .ok q) (hmore : q.ep.nextState = .sendRequest)
    (hgoes : q.quit = false) (hnamed : q.ep.mid ≠ 0) :
    (∃ queue, q.Backlogged least resource k 0 queue) ∧
      p.ep.askedOffset + least ≤ q.ep.askedOffset := by
  obtain ⟨q', hrun, ⟨-, -, hgained, htrails⟩ | ⟨code, hends⟩⟩ :
      ∃ q', p.duplicated std server k r = .ok q' ∧ _ := h.duplicated hfit hleast hserver hworks
  · obtain rfl := Except.ok.inj (hdup.symm.trans hrun)
    exact ⟨htrails hnamed, hgained⟩
  · obtain rfl := Except.ok.inj (hdup.symm.trans hrun)
    rcases hends.ends with ⟨hquit, -⟩ | ⟨-, hnext⟩
    · rw [hgoes] at hquit
      cases hquit
    · rw [hmore] at hnext
      cases hnext

/-- **A duplicated answer is never caught up with.** When one answer arrives `k` times more than once, `k ≤ 4`,
and nothing is lost or duplicated from then on, the program downloads the resource, but it asks for every
block that is left `k + 1` times: there are as many requests under each id. -/
theorem duplicates_persist {p₀ q q₁ : Program} {path buffer : List UInt8} {port : UInt16}
    {before : List Round} (hlaunch : launch path port buffer = .ok p₀) (hbuffer : buffer.length = 2500)
    (hpath : ∀ segment ∈ p₀.ep.destUri.uri.asString, segment.length ≤ 256)
    (hroom : (p₀.ep.destUri.uri.asString.map Endpoint.segmentSize).sum + 22 ≤ 2500)
    (hserver : Serves limit least resource server)
    (hfit : Endpoint.NumbersFit limit least resource) (hpos : 0 < least) (hleast : least ≤ 2048)
    (hresource : resource ≠ []) (hworks : ∀ r ∈ before, r.Works)
    (hbefore : p₀.rounds std server before = .ok q) (hasks : q.ep.nextState = .sendRequest)
    (hgoes : q.quit = false) (hround : r.Works) (hdup : q.duplicated std server k r = .ok q₁)
    (hmore : q₁.ep.nextState = .sendRequest) (hgoes₁ : q₁.quit = false) (hk : k ≤ 4)
    (hnamed : q₁.ep.mid ≠ 0) (hids : q₁.ep.mid.toNat + resource.length / least ≤ 65536)
    (hdelivers : ∀ r ∈ rs, Delivers r) (henough : (k + 1) * (resource.length / least) ≤ rs.length)
    (hselect : s.failed = none) :
    ∃ n ds p p', 0 < n ∧ n ≤ resource.length / least ∧
      q₁.rounds std server (rs.take ((k + 1) * n)) = .ok p ∧ p.turn std s = .ok p' ∧
      p'.quit = true ∧ p'.ep.isComplete = true ∧ p'.ep.downloaded = resource ∧
      p.ep.conn.sent = q₁.ep.conn.sent ++ ds ∧ ds.map datagramId = repeated (k + 1) q₁.ep.mid n := by
  obtain ⟨a, hbetween⟩ := asks_between hlaunch hbuffer hpath hroom hserver hfit hleast hresource hworks
    hbefore hasks hgoes
  obtain ⟨⟨queue, htrails⟩, hgained⟩ :=
    hbetween.trails hfit hleast hserver hround hdup hmore hgoes₁ hnamed
  -- the blocks that are left are no more than the resource has behind its first one
  have hall : resource.length ≤ q₁.ep.askedOffset + least * (resource.length / least) := by
    have hlt := Nat.lt_mul_div_succ resource.length hpos
    rw [Nat.mul_succ] at hlt
    omega
  obtain ⟨n, p, ds, code, hsome, hle, hrounds, hends, hsent, hnames⟩ :=
    htrails.transfer hfit hleast hserver hk hdelivers hall hids henough
  obtain ⟨p', hturn, hends, hquit⟩ := hends.turn (.inl rfl) hselect
  exact ⟨n, ds, p, p', hsome, hle, hrounds, hturn, hquit, decide_eq_true (hends.entered hquit),
    hends.stored, hsent, hnames⟩

/-! ### A sample transfer -/

/-- A round of which nothing is lost. -/
def sampleRound : Round := ⟨false, ⟨none, 0, 1, true⟩, ⟨none, 0, 1, true⟩⟩

/-- Rounds like it. -/
theorem sampleRound_delivers {n : Nat} : ∀ r ∈ List.replicate n sampleRound, Delivers r := by
  intro r hr
  rw [List.eq_of_mem_replicate hr]
  exact ⟨⟨rfl, rfl, rfl⟩, rfl⟩

/-- Behind a first round with duplicates the sample program asks for its second block, under the id 2. -/
theorem sampleProgram_duplicated (hk : k = 1 ∨ k = 5) :
    ∃ p₀ q₁, sampleProgram = .ok p₀ ∧
      (∀ segment ∈ p₀.ep.destUri.uri.asString, segment.length ≤ 256) ∧
      (p₀.ep.destUri.uri.asString.map Endpoint.segmentSize).sum + 22 ≤ 2500 ∧
      p₀.ep.nextState = .sendRequest ∧ p₀.quit = false ∧
      p₀.duplicated .insertion sampleServer k sampleRound = .ok q₁ ∧
      q₁.ep.nextState = .sendRequest ∧ q₁.quit = false ∧ q₁.ep.mid = 2 := by
  have hrun : (sampleProgram >>= fun p₀ => p₀.duplicated .insertion sampleServer k sampleRound).map
      (fun q₁ => decide (q₁.ep.nextState = .sendRequest ∧ q₁.quit = false ∧ q₁.ep.mid = 2)) =
      .ok true := by
    rcases hk with rfl | rfl
    · decide +kernel
    · decide +kernel
  obtain ⟨q₁, hall, hseen⟩ := map_eq_ok hrun
  obtain ⟨p₀, hlaunch, hdup⟩ := bind_eq_ok.mp hall
  obtain ⟨p₀', hlaunch', hpath, hroom⟩ := sampleProgram_room
  obtain rfl := Except.ok.inj (hlaunch'.symm.trans hlaunch)
  have hstarts : p₀'.ep.nextState = .sendRequest ∧ p₀'.quit = false := by
    obtain ⟨e₀, -, rfl, -⟩ := launch_follows hlaunch
    exact ⟨rfl, rfl⟩
  exact ⟨p₀', q₁, hlaunch, hpath, hroom, hstarts.1, hstarts.2, hdup, of_decide_eq_true hseen⟩

/-- The sample program asks twice for its second block when the first answer arrives twice. -/
theorem duplicates_persist_sample :
    ∃ p₀ q₁ n ds p p', sampleProgram = .ok p₀ ∧
      p₀.duplicated .insertion sampleServer 1 sampleRound = .ok q₁ ∧ 0 < n ∧ n ≤ 1 ∧
      q₁.rounds .insertion sampleServer ((List.replicate 2 sampleRound).take ((1 + 1) * n)) = .ok p ∧
      p.turn .insertion ⟨none, 0, 1, true⟩ = .ok p' ∧ p'.ep.isComplete = true ∧
      p.ep.conn.sent = q₁.ep.conn.sent ++ ds ∧
      ds.map datagramId = repeated (1 + 1) q₁.ep.mid n := by
  obtain ⟨p₀, q₁, hlaunch, hpath, hroom, hasks, hgoes, hdup, hmore, hgoes₁, hmid⟩ :=
    sampleProgram_duplicated (.inl rfl)
  have hbuffer : (List.replicate bufferMaxSize (0 : UInt8)).length = 2500 := by
    rw [List.length_replicate, bufferMaxSize]
  have hbefore : p₀.rounds .insertion sampleServer [] = .ok p₀ := rfl
  have hworks : sampleRound.Works := ⟨rfl, rfl, rfl⟩
  have hids : q₁.ep.mid.toNat + Endpoint.sampleResource.length / 16 ≤ 65536 := by
    rw [hmid]
    decide
  have hnamed : q₁.ep.mid ≠ 0 := by
    rw [hmid]
    decide
  obtain ⟨n, ds, p, p', hsome, hle, hrounds, hturn, -, hcomplete, -, hsent, hnames⟩ :
      ∃ n ds p p', 0 < n ∧ n ≤ Endpoint.sampleResource.length / 16 ∧
        q₁.rounds .insertion sampleServer ((List.replicate 2 sampleRound).take ((1 + 1) * n)) = .ok p ∧
        p.turn .insertion ⟨none, 0, 1, true⟩ = .ok p' ∧ _ :=
    duplicates_persist hlaunch hbuffer hpath hroom sampleServer_serves sampleServer_fits (by decide)
      (by decide) (by decide) (fun r hr => absurd hr List.not_mem_nil) hbefore hasks hgoes hworks hdup
      hmore hgoes₁ (by decide) hnamed hids sampleRound_delivers (by decide) rfl
  exact ⟨p₀, q₁, n, ds, p, p', hlaunch, hdup, hsome, hle, hrounds, hturn, hcomplete, hsent, hnames⟩

/-- **More than four duplicates end a transfer**, although nothing is lost: the program gives up with the code
of a timeout behind five more requests, and its file is the part of the resource that it had. -/
theorem duplicates_end {p₀ q q₁ : Program} {path buffer : List UInt8} {port : UInt16}
    {before : List Round} (hlaunch : launch path port buffer = .ok p₀) (hbuffer : buffer.length = 2500)
    (hpath : ∀ segment ∈ p₀.ep.destUri.uri.asString, segment.length ≤ 256)
    (hroom : (p₀.ep.destUri.uri.asString.map Endpoint.segmentSize).sum + 22 ≤ 2500)
    (hserver : Serves limit least resource server)
    (hfit : Endpoint.NumbersFit limit least resource) (hleast : least ≤ 2048)
    (hresource : resource ≠ []) (hworks : ∀ r ∈ before, r.Works)
    (hbefore : p₀.rounds std server before = .ok q) (hasks : q.ep.nextState = .sendRequest)
    (hgoes : q.quit = false) (hround : r.Works) (hdup : q.duplicated std server k r = .ok q₁)
    (hmore : q₁.ep.nextState = .sendRequest) (hgoes₁ : q₁.quit = false) (hk : 5 ≤ k)
    (hnamed : q₁.ep.mid ≠ 0) (hdelivers : ∀ r ∈ rs, Delivers r) (henough : 5 ≤ rs.length)
    (hselect : s.failed = none) :
    ∃ p p', q₁.rounds std server rs = .ok p ∧ p.turn std s = .ok p' ∧ p'.quit = true ∧
      p'.ep.isError = true ∧ p'.ep.error = .coapTimeout ∧ p'.ep.downloaded = q₁.ep.downloaded ∧
      p'.ep.downloaded <+: resource ∧ p'.ep.downloaded ≠ resource := by
  obtain ⟨a, hbetween⟩ := asks_between hlaunch hbuffer hpath hroom hserver hfit hleast hresource hworks
    hbefore hasks hgoes
  obtain ⟨⟨queue, htrails⟩, -⟩ := hbetween.trails hfit hleast hserver hround hdup hmore hgoes₁ hnamed
  obtain ⟨p, hrounds, hends⟩ := htrails.exhausts hfit hleast hserver hk hdelivers henough
  obtain ⟨p', hturn, hends, hquit⟩ := hends.turn (.inr rfl) hselect
  exact ⟨p, p', hrounds, hturn, hquit, decide_eq_true (hends.entered hquit), hends.error,
    hends.stored.trans htrails.trailing.asking.stored.symm, hends.part htrails.trailing.asking.inside⟩

/-- The sample program gives up when the first answer arrives six times. -/
theorem duplicates_end_sample :
    ∃ p₀ q₁ p p', sampleProgram = .ok p₀ ∧
      p₀.duplicated .insertion sampleServer 5 sampleRound = .ok q₁ ∧
      q₁.rounds .insertion sampleServer (List.replicate 5 sampleRound) = .ok p ∧
      p.turn .insertion ⟨none, 0, 1, true⟩ = .ok p' ∧ p'.ep.isError = true ∧
      p'.ep.error = .coapTimeout ∧ p'.ep.downloaded ≠ Endpoint.sampleResource := by
  obtain ⟨p₀, q₁, hlaunch, hpath, hroom, hasks, hgoes, hdup, hmore, hgoes₁, hmid⟩ :=
    sampleProgram_duplicated (.inr rfl)
  have hbuffer : (List.replicate bufferMaxSize (0 : UInt8)).length = 2500 := by
    rw [List.length_replicate, bufferMaxSize]
  have hbefore : p₀.rounds .insertion sampleServer [] = .ok p₀ := rfl
  have hworks : sampleRound.Works := ⟨rfl, rfl, rfl⟩
  have hnamed : q₁.ep.mid ≠ 0 := by
    rw [hmid]
    decide
  obtain ⟨p, p', hrounds, hturn, -, herror, hcode, -, -, hfile⟩ :
      ∃ p p', q₁.rounds .insertion sampleServer (List.replicate 5 sampleRound) = .ok p ∧
        p.turn .insertion ⟨none, 0, 1, true⟩ = .ok p' ∧ _ :=
    duplicates_end hlaunch hbuffer hpath hroom sampleServer_serves sampleServer_fits (by decide)
      (by decide) (fun r hr => absurd hr List.not_mem_nil) hbefore hasks hgoes hworks hdup hmore hgoes₁
      (by decide) hnamed sampleRound_delivers (by decide) rfl
  exact ⟨p₀, q₁, p, p', hlaunch, hdup, hrounds, hturn, herror, hcode, hfile⟩

end Program

end LibCoap
