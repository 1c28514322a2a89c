import LibCoap.Application.Launch
import LibCoap.Application.Transfer

/-! # What the command leaves in a directory

The file of a client is named by the last segment of the path and opened with `ios::app`: what a session of the
command stores stands behind what was there, be it of an earlier session or of another path with the same last
segment. So a session that has downloaded all of a resource need not leave the resource (`file_whole_iff`). Each
session also appends to the log, `coap-client.log` in the same directory. -/

namespace LibCoap

open Machine Wire

/-- The bytes of the files of a directory, by name; a file that is not there has none. -/
abbrev Directory := List UInt8 → List UInt8

/-- Some bytes behind what is in the file of a name. -/
def Directory.append (files : Directory) (addition : List UInt8 × List UInt8) : Directory :=
  Function.update files addition.1 (files addition.1 ++ addition.2)

/-- What the file of a name holds behind an addition. -/
theorem Directory.append_apply (files : Directory) (addition : List UInt8 × List UInt8) (name : List UInt8) :
    files.append addition name = files name ++ (if addition.1 = name then addition.2 else []) := by
  rw [Directory.append]
  by_cases hname : addition.1 = name
  · subst hname
    simp
  · simp [hname, Function.update_of_ne (Ne.symm hname)]

/-- What a list of additions holds for the file of a name. -/
def additionsTo (name : List UInt8) (additions : List (List UInt8 × List UInt8)) : List UInt8 :=
  ((additions.filter fun addition => addition.1 = name).map Prod.snd).flatten

@[simp] theorem additionsTo_nil (name : List UInt8) : additionsTo name [] = [] := rfl

/-- The first addition counts where it has the name. -/
theorem additionsTo_cons (name : List UInt8) (addition : List UInt8 × List UInt8)
    (additions : List (List UInt8 × List UInt8)) :
    additionsTo name (addition :: additions) =
      (if addition.1 = name then addition.2 else []) ++ additionsTo name additions := by
  rw [additionsTo, additionsTo, List.filter_cons]
  by_cases hname : addition.1 = name
  · simp [hname]
  · simp [hname]

/-- **Additions in a row** are put behind each other. -/
theorem foldl_append (files : Directory) (name : List UInt8) (additions : List (List UInt8 × List UInt8)) :
    additions.foldl Directory.append files name = files name ++ additionsTo name additions := by
  induction additions generalizing files with
  | nil => exact (List.append_nil _).symm
  | cons addition additions ih =>
    rw [List.foldl_cons, ih, Directory.append_apply, additionsTo_cons, List.append_assoc]

/-- `coap-client.log`. -/
def logName : List UInt8 :=
  [0x63, 0x6F, 0x61, 0x70, 0x2D, 0x63, 0x6C, 0x69, 0x65, 0x6E, 0x74, 0x2E, 0x6C, 0x6F, 0x67]

/-- A session of the command: how it is started, and what happens to it. -/
structure Session where
  argc : Nat
  options : List CommandOption
  surrounding : Surrounding
  events : List Event
  /-- What is written into the log, also by a client whose own file has the name of the log. -/
  logged : List UInt8
  /-- The file of the client can be opened. -/
  opens : Bool

namespace Session

variable {std : StdSort} {s : Session} {sessions : List Session} {files files' : Directory}
  {name : List UInt8}

/-- The name of the file of a session and what it stores, unless `main` does not get to its loop. -/
def outcome (std : StdSort) (s : Session) : Exec (Option (List UInt8 × List UInt8)) := do
  match ← main s.argc s.options s.surrounding with
  | none => pure none
  | some (p₀, _) =>
    let name ← p₀.ep.destUri.fileName
    let p ← p₀.run std s.events
    pure (some (name, p.ep.downloaded))

/-- What a session adds to files. The log is opened once the arguments are accepted, before all else; what is
stored is lost in a stream that is not open. -/
def additions (std : StdSort) (s : Session) : Exec (List (List UInt8 × List UInt8)) :=
  match parseArguments s.argc s.options with
  | none => pure []
  | some _ => do
    match ← s.outcome std with
    | none => pure [(logName, s.logged)]
    | some (name, bytes) =>
      if s.opens ∧ name ≠ logName then pure [(logName, s.logged), (name, bytes)]
      else pure [(logName, s.logged)]

/-- What a session makes of the directory. -/
def run (std : StdSort) (files : Directory) (s : Session) : Exec Directory := do
  let additions ← s.additions std
  pure (additions.foldl Directory.append files)

/-- What a session writes into the file of a name. -/
def written (std : StdSort) (name : List UInt8) (s : Session) : List UInt8 :=
  match s.additions std with
  | .ok additions => additionsTo name additions
  | .error _ => []

/-- **One session** adds what it writes, to every file. -/
theorem run_adds (h : s.run std files = .ok files') : files' name = files name ++ s.written std name := by
  obtain ⟨additions, hadditions, h⟩ := bind_eq_ok.mp h
  cases h
  rw [written, hadditions, foldl_append]

/-- **Sessions in a row** add what they write, in their order. -/
theorem sessions_add (h : sessions.foldlM (run std) files = .ok files') :
    files' name = files name ++ (sessions.map (written std name)).flatten := by
  induction sessions generalizing files with
  | nil =>
    cases h
    exact (List.append_nil _).symm
  | cons s sessions ih =>
    obtain ⟨files₁, hfirst, hrest⟩ := foldlM_cons_eq_ok.mp h
    rw [ih hrest, run_adds hfirst, List.map_cons, List.flatten_cons, List.append_assoc]

/-- The outcome of a session that has been started. -/
theorem outcome_of_started {p₀ p : Program} {c : ClientConnection}
    (hstart : main s.argc s.options s.surrounding = .ok (some (p₀, c)))
    (hname : p₀.ep.destUri.fileName = .ok name) (hrun : p₀.run std s.events = .ok p) :
    s.outcome std = .ok (some (name, p.ep.downloaded)) := by
  rw [outcome, hstart, ok_bind]
  show (p₀.ep.destUri.fileName >>= _) = _
  rw [hname, ok_bind, hrun]
  rfl

/-- **What is written by a session with an outcome**, into a file that is open and not the log. -/
theorem written_of_outcome {a : Arguments} {bytes : List UInt8}
    (hparse : parseArguments s.argc s.options = some a)
    (h : s.outcome std = .ok (some (name, bytes))) (hopens : s.opens = true) (hlog : name ≠ logName) :
    s.written std name = bytes := by
  have hadditions : s.additions std = .ok [(logName, s.logged), (name, bytes)] := by
    rw [additions, hparse]
    show (s.outcome std >>= _) = _
    rw [h, ok_bind]
    exact if_pos ⟨hopens, hlog⟩
  rw [written, hadditions]
  simp [additionsTo_cons, Ne.symm hlog]

/-- A text that is part of itself has nothing around it. -/
theorem around_eq_nil {before part after : List UInt8} (h : before ++ (part ++ after) = part) :
    before = [] ∧ after = [] := by
  have hlength := congrArg List.length h
  simp only [List.length_append] at hlength
  exact ⟨List.length_eq_zero_iff.mp (by omega), List.length_eq_zero_iff.mp (by omega)⟩

/-- **When a file holds what was downloaded.** Once a session has ended in `COMPLETE` behind a transfer from an
honest server, its file, which could be opened and is not the log, is the resource exactly when there was nothing
in it and one of the sessions alone has written into it. -/
theorem file_whole_iff {limit : Nat} {D : Dialect} {resource : List UInt8} {p₀ p : Program}
    {c : ClientConnection} {answers : List (List UInt8)} (hD : Format D)
    (hsessions : sessions.foldlM (run std) files = .ok files') (hs : s ∈ sessions)
    (hstart : main s.argc s.options s.surrounding = .ok (some (p₀, c)))
    (hname : p₀.ep.destUri.fileName = .ok name) (hlog : name ≠ logName) (hopens : s.opens = true)
    (hrun : p₀.run std s.events = .ok p)
    (hreach : (network std limit D resource).Reach (Program.Separated limit) p₀ p answers)
    (hcomplete : p.ep.isComplete = true) :
    files' name = resource ↔ files name = [] ∧ ∃ before t after, sessions = before ++ t :: after ∧
      t.written std name = resource ∧ ∀ u ∈ before ++ after, u.written std name = [] := by
  obtain ⟨a, c₀, hparse, -, hlaunch, -⟩ := main_eq_started.mp hstart
  have hwhole : s.written std name = resource := by
    rw [written_of_outcome hparse (outcome_of_started hstart hname hrun) hopens hlog]
    exact (Program.reach_carries hD hlaunch hreach).whole hcomplete
  rw [sessions_add hsessions]
  constructor
  · intro hfile
    -- the session has written the whole resource, so nothing can stand in front of it or behind it
    obtain ⟨before, after, rfl⟩ := List.append_of_mem hs
    rw [List.map_append, List.flatten_append, List.map_cons, List.flatten_cons, hwhole,
      ← List.append_assoc] at hfile
    obtain ⟨hfront, hback⟩ := around_eq_nil hfile
    obtain ⟨hempty, hfront⟩ := List.append_eq_nil_iff.mp hfront
    refine ⟨hempty, before, s, after, rfl, hwhole, fun u hu => ?_⟩
    rcases List.mem_append.mp hu with hu | hu
    · exact List.flatten_eq_nil_iff.mp hfront _ (List.mem_map_of_mem hu)
    · exact List.flatten_eq_nil_iff.mp hback _ (List.mem_map_of_mem hu)
  · rintro ⟨hempty, before, t, after, rfl, ht, hothers⟩
    have hnothing {us : List Session} (h : ∀ u ∈ us, u.written std name = []) :
        (us.map (written std name)).flatten = [] := by
      rw [List.flatten_eq_nil_iff]
      rintro bytes hbytes
      obtain ⟨u, hu, rfl⟩ := List.mem_map.mp hbytes
      exact h u hu
    rw [hempty, List.map_append, List.flatten_append, List.map_cons, List.flatten_cons, ht,
      hnothing fun u hu => hothers u (List.mem_append_left _ hu),
      hnothing fun u hu => hothers u (List.mem_append_right _ hu)]
    simp

/-- A session that downloads `/a`, with the default address and port, and writes a line into the log. -/
def sampleSession : Session where
  argc := 3
  options := [.file [0x2F, 0x61]]
  surrounding := ⟨ClientConnection.sampleResolver, .filled 0, List.replicate bufferMaxSize 0⟩
  events := Program.sampleDownload
  logged := [0x0A]
  opens := true

/-- The sample session gets to the loop and runs. -/
theorem sampleSession_starts :
    ∃ p₀ p c answers, main sampleSession.argc sampleSession.options sampleSession.surrounding =
        .ok (some (p₀, c)) ∧ p₀.ep.destUri.fileName = .ok [0x61] ∧
      p₀.run .insertion sampleSession.events = .ok p ∧
      (network .insertion 3 sourceDialect Endpoint.sampleResource).Reach (Program.Separated 3) p₀ p
        answers ∧
      p.ep.isComplete = true := by
  obtain ⟨p₀, p, answers, hlaunch, hrun, hreach, hcomplete⟩ := Program.sampleProgram_reaches
  obtain ⟨c, c₀, hcreate, hestablish⟩ : ∃ c, ClientConnection.Established
      ClientConnection.sampleResolver [0x3A, 0x3A, 0x31] 5683 (.filled 0) c :=
    ⟨_, _, rfl, ClientConnection.establish_true_iff.mpr ⟨_, rfl, rfl, rfl⟩⟩
  -- the connection has the default port, so what `main` launches is the sample program
  have hport : c₀.port = 5683 := by
    cases hcreate
    rfl
  have hname : (Program.sampleProgram >>= fun p₀ => p₀.ep.destUri.fileName) = .ok [0x61] := by
    decide +kernel
  rw [hlaunch] at hname
  exact ⟨p₀, p, c, answers,
    main_eq_started.mpr ⟨_, c₀, rfl, hcreate, hport ▸ hlaunch, hestablish⟩, hname, hrun, hreach, hcomplete⟩

/-- The sample session has an outcome, so it runs in every directory. -/
theorem sampleSession_runs (files : Directory) :
    ∃ files', sampleSession.run .insertion files = .ok files' := by
  obtain ⟨p₀, p, c, answers, hstart, hname, hrun, -⟩ := sampleSession_starts
  have hout := outcome_of_started hstart hname hrun
  rw [run, additions]
  show ∃ files', ((sampleSession.outcome .insertion >>= _) >>= _) = .ok files'
  rw [hout]
  exact ⟨_, rfl⟩

/-- A resource that is downloaded once is the file, and one that is downloaded twice is not. -/
theorem file_whole_iff_sample :
    (∃ files', [sampleSession].foldlM (run .insertion) (fun _ => []) = .ok files' ∧
      files' [0x61] = Endpoint.sampleResource) ∧
    ∃ files', [sampleSession, sampleSession].foldlM (run .insertion) (fun _ => []) = .ok files' ∧
      files' [0x61] ≠ Endpoint.sampleResource := by
  obtain ⟨p₀, p, c, answers, hstart, hname, hrun, hreach, hcomplete⟩ := sampleSession_starts
  obtain ⟨a, c₀, hparse, -, hlaunch, -⟩ := main_eq_started.mp hstart
  have hlog : ([0x61] : List UInt8) ≠ logName := by decide
  have hwrites : sampleSession.written .insertion [0x61] = Endpoint.sampleResource := by
    rw [written_of_outcome hparse (outcome_of_started hstart hname hrun) rfl hlog]
    exact (Program.reach_carries (.inl rfl) hlaunch hreach).whole hcomplete
  obtain ⟨files₁, hfirst⟩ := sampleSession_runs fun _ => []
  obtain ⟨files₂, hsecond⟩ := sampleSession_runs files₁
  constructor
  · have hsessions : [sampleSession].foldlM (run .insertion) (fun _ => []) = .ok files₁ :=
      foldlM_cons_eq_ok.mpr ⟨files₁, hfirst, rfl⟩
    refine ⟨files₁, hsessions, ?_⟩
    exact (file_whole_iff (.inl rfl) hsessions List.mem_cons_self hstart hname hlog rfl hrun hreach
      hcomplete).mpr ⟨rfl, [], sampleSession, [], rfl, hwrites, nofun⟩
  · have hsessions : [sampleSession, sampleSession].foldlM (run .insertion) (fun _ => []) = .ok files₂ :=
      foldlM_cons_eq_ok.mpr ⟨files₁, hfirst, foldlM_cons_eq_ok.mpr ⟨files₂, hsecond, rfl⟩⟩
    refine ⟨files₂, hsessions, fun hfile => ?_⟩
    obtain ⟨-, before, t, after, hsplit, -, hothers⟩ := (file_whole_iff (.inl rfl) hsessions
      List.mem_cons_self hstart hname hlog rfl hrun hreach hcomplete).mp hfile
    -- whichever of the two sessions has written, the other one has written, too
    have hother : sampleSession ∈ before ++ after := by
      cases before with
      | nil =>
        obtain ⟨-, rfl⟩ := List.cons.inj hsplit
        exact List.mem_cons_self
      | cons u us =>
        obtain ⟨rfl, -⟩ := List.cons.inj hsplit
        exact List.mem_cons_self
    exact absurd (hwrites.symm.trans (hothers _ hother)) (by decide)

end Session

end LibCoap
