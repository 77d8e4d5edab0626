import W600Demo.Boot.Credentials

/-!
# The life of a device

Runs in which what start-up calls works and every save and every reset is
completed before the next one begins. The interleaving then does not show: the
device is the history of `Wlan.History`, in which these are single events.

* `running_goOn`: a file operation that is made is no longer pending.
* `main_settled`: what a start reads.
* `follows_step`: what an action makes of the history.
* `orderly_refines`: every run is the history of its events; the device is
  formatted at the first start only.
* `orderly_forgets`: whatever was stored before, from the first reset or success
  with a key on only the history counts.
-/

namespace W600Demo.Boot

open Flash Wlan

/-! ## Pending operations -/

/-- The files of the device to mount. -/
def filesAt (board : Board) (vols : Volumes) : Files := (vols (rootDevice board)).getD noFiles

/-- The file operations still to be made. -/
def Session.pending (session : Session) : List FileOp := session.jobs.flatMap Job.ops

/-- The files of the device to mount, once the pending operations are made. -/
def Device.settled (board : Board) (s : Device) : Files :=
  applyOps (filesAt board s.vols) ((s.session.map Session.pending).getD [])

/-- The device runs from the root, and one job at a time. -/
structure Session.Running (board : Board) (vols : Volumes) (session : Session) : Prop where
  root : session.root = some (rootDevice board)
  vol : (vols (rootDevice board)).isSome
  one : session.jobs.length ≤ 1

section

variable {board : Board} {vols : Volumes}

theorem flatMap_jobOf (task : Task) (ops : List FileOp) : (jobOf task ops).flatMap Job.ops = ops := by
  cases ops with
  | nil => rfl
  | cons op ops => exact List.append_nil _

theorem length_jobOf (task : Task) (ops : List FileOp) : (jobOf task ops).length ≤ 1 := by
  cases ops with
  | nil => exact Nat.zero_le 1
  | cons op ops => exact Nat.le_refl 1

theorem isSome_applyRoot (root : Option AreaName) (op : FileOp) (name : AreaName) :
    (applyRoot root vols op name).isSome = (vols name).isSome := by
  cases root with
  | none => rfl
  | some root =>
    by_cases hname : name = root
    · subst hname
      rw [applyRoot, Function.update_self, Option.isSome_map]
    · rw [applyRoot, Function.update_of_ne hname]

theorem applyRoot_eq_none (root : Option AreaName) (op : FileOp) (name : AreaName) :
    applyRoot root vols op name = none ↔ vols name = none := by
  rw [← Option.isNone_iff_eq_none, ← Option.isNone_iff_eq_none, ← Option.not_isSome,
    ← Option.not_isSome, isSome_applyRoot]

/-- The operation is made on the files of the device to mount. -/
theorem filesAt_applyRoot (h : (vols (rootDevice board)).isSome) (op : FileOp) :
    filesAt board (applyRoot (some (rootDevice board)) vols op) = applyOp (filesAt board vols) op := by
  obtain ⟨files, hfiles⟩ := Option.isSome_iff_exists.mp h
  rw [filesAt, filesAt, applyRoot, Function.update_self, hfiles]
  rfl

/-- **A file operation** is taken from the pending ones. -/
theorem running_goOn {root : Option AreaName} {before after : List Job} {job : Job}
    (h : Session.Running board vols ⟨root, before ++ job :: after⟩) :
    Session.Running board (applyRoot root vols job.next)
        ⟨root, before ++ jobOf job.task job.rest ++ after⟩ ∧
      Device.settled board ⟨applyRoot root vols job.next,
          some ⟨root, before ++ jobOf job.task job.rest ++ after⟩⟩ =
        Device.settled board ⟨vols, some ⟨root, before ++ job :: after⟩⟩ := by
  obtain ⟨hroot, hvol, hone⟩ := h
  obtain rfl : root = some (rootDevice board) := hroot
  -- the job is the only one
  rw [List.length_append, List.length_cons] at hone
  obtain rfl : before = [] := List.eq_nil_of_length_eq_zero (by omega)
  obtain rfl : after = [] := List.eq_nil_of_length_eq_zero (by omega)
  rw [List.nil_append, List.append_nil]
  refine ⟨⟨rfl, by rw [isSome_applyRoot]; exact hvol, length_jobOf _ _⟩, ?_⟩
  unfold Device.settled Session.pending
  dsimp only
  rw [Option.map_some, Option.getD_some, flatMap_jobOf, filesAt_applyRoot hvol]
  show applyOps (applyOp (filesAt board vols) job.next) job.rest =
    applyOps (filesAt board vols) (job.next :: job.rest ++ [])
  rw [List.append_nil]
  rfl

/-- A job that begins alone, and what its operations make of the files. -/
theorem running_start {session : Session} (h : session.Running board vols) (hjobs : session.jobs = [])
    (task : Task) (ops : List FileOp) :
    (session.start task ops).Running board vols ∧
      Device.settled board ⟨vols, some (session.start task ops)⟩ =
        applyOps (Device.settled board ⟨vols, some session⟩) ops := by
  have hstart : (session.start task ops).jobs = jobOf task ops := by
    rw [Session.start, hjobs]
    rfl
  refine ⟨⟨h.root, h.vol, by rw [hstart]; exact length_jobOf _ _⟩, ?_⟩
  unfold Device.settled Session.pending
  dsimp only
  rw [Option.map_some, Option.map_some, Option.getD_some, Option.getD_some, hstart, flatMap_jobOf,
    hjobs]
  rfl

/-- **A start on which everything works** reads what is settled, and leaves it. -/
theorem main_settled (hroot : HasRoot board) {env : Env} (henv : env.Works) (vols : Volumes) :
    (main board env vols).connect = load rtWlanSsidMaxLength (filesAt board vols) ∧
      (main board env vols).session.Running board (main board env vols).vols ∧
      filesAt board (main board env vols).vols = filesAt board vols := by
  obtain ⟨hmounted, hvols, -⟩ := main_works hroot henv vols
  have hat : (main board env vols).vols (rootDevice board) = some (filesAt board vols) := by
    rw [hvols, Function.update_self]
    rfl
  have hfiles : (mountRoot board env vols).files = filesAt board vols := by
    replace hmounted : (mountRoot board env vols).root = some (rootDevice board) := hmounted
    replace hat : (mountRoot board env vols).vols (rootDevice board) = _ := hat
    rw [Mounted.files, hmounted, Option.bind_some, hat]
    rfl
  refine ⟨?_, ⟨hmounted, by rw [hat]; rfl, Nat.zero_le 1⟩, ?_⟩
  · show load _ (mountRoot board env vols).files = _
    rw [hfiles]
  · rw [filesAt, hat]
    rfl

end

/-! ## Orderly runs -/

/-- No job runs. -/
def Device.Idle (s : Device) : Prop := ∀ session ∈ s.session, session.jobs = []

/-- What start-up calls works, files open, and jobs are completed. -/
def Orderly (s : Device) : Action → Prop
  | .boot env => env.Works
  | .callback opens _ _ _ => (∀ f, opens f = true) ∧ s.Idle
  | .reset | .powerOff => s.Idle
  | .jobStep _ => True

/-- The device after the events of the past, from the file systems `vols`. -/
structure Follows (board : Board) (vols : Volumes) (past : List Action) (s : Device) : Prop where
  settled : s.settled board = filesFrom (filesAt board vols) (history past)
  running : ∀ session ∈ s.session, session.Running board s.vols
  formatted : s.vols (rootDevice board) = none ↔
    vols (rootDevice board) = none ∧ ∀ env, .boot env ∉ past

section

variable {board : Board} {vols : Volumes} {past : List Action} {s s' : Device} {a : Action}

theorem history_singleton (past : List Action) {ev : Event} (ha : a.event = some ev) :
    history (past ++ [a]) = history past ++ [ev] := by
  rw [history_append, history, history, List.filterMap_cons_some ha]
  rfl

theorem history_silent (past : List Action) (ha : a.event = none) :
    history (past ++ [a]) = history past := by
  rw [history_append, history, history, List.filterMap_cons_none ha]
  exact List.append_nil _

/-- Actions other than starts do not count as starts. -/
theorem notMem_boot_append (ha : ∀ env, a ≠ .boot env) :
    (∀ env, Action.boot env ∉ past ++ [a]) ↔ ∀ env, Action.boot env ∉ past := by
  apply forall_congr'
  intro env
  rw [List.mem_append, List.mem_singleton, not_or]
  exact and_iff_left (Ne.symm (ha env))

/-- **A job that begins** with no other one running is an event of the history. -/
theorem Follows.start {vols1 : Volumes} {session : Session}
    (h : Follows board vols past ⟨vols1, some session⟩) (hjobs : session.jobs = []) (a : Action)
    (ev : Event) (ha : a.event = some ev) (hboot : ∀ env, a ≠ .boot env) (task : Task) :
    Follows board vols (past ++ [a]) ⟨vols1, some (session.start task ev.ops)⟩ := by
  obtain ⟨hrunning, hsettled⟩ := running_start (h.running session rfl) hjobs task ev.ops
  refine ⟨?_, ?_, ?_⟩
  · rw [hsettled, h.settled, history_singleton past ha, filesFrom_append]
  · intro session' hsession
    obtain rfl := Option.some.inj hsession
    exact hrunning
  · rw [notMem_boot_append hboot]
    exact h.formatted

/-- **What an action keeps in an orderly run.** -/
theorem follows_step (hroot : HasRoot board) (h : Follows board vols past s) (hcond : Orderly s a)
    (hstep : step board s a = some s') : Follows board vols (past ++ [a]) s' := by
  cases Step.of_step hstep with
  | boot vols1 env =>
    obtain ⟨-, hrunning, hfiles⟩ := main_settled hroot hcond vols1
    refine ⟨?_, ?_, iff_of_false ?_ ?_⟩
    · rw [history_singleton past rfl, filesFrom_append, ← h.settled]
      exact hfiles
    · intro session hsession
      obtain rfl := Option.some.inj hsession
      exact hrunning
    · exact Option.isSome_iff_ne_none.mp hrunning.vol
    · rintro ⟨-, hnone⟩
      exact hnone env (List.mem_append_right _ (List.mem_singleton_self _))
  | callback vols1 session opens ssid key connected =>
    obtain rfl : opens = fun _ => true := funext hcond.1
    exact h.start (hcond.2 session rfl) _ (.callback ssid key connected) rfl (by simp) .oneshot
  | reset vols1 session => exact h.start (hcond session rfl) _ .reset rfl (by simp) .shell
  | jobStep vols1 root before after job =>
    obtain ⟨hrunning, hsettled⟩ := running_goOn (h.running _ rfl)
    refine ⟨?_, ?_, ?_⟩
    · rw [hsettled, h.settled, history_silent past rfl]
    · intro session hsession
      obtain rfl := Option.some.inj hsession
      exact hrunning
    · rw [notMem_boot_append (by simp), ← h.formatted]
      exact applyRoot_eq_none _ _ _
  | powerOff vols1 session =>
    have hpending : session.pending = [] := by
      rw [Session.pending, hcond session rfl]
      rfl
    refine ⟨?_, ?_, ?_⟩
    · rw [history_silent past rfl, ← h.settled, Device.settled, Device.settled, Option.map_some,
        Option.getD_some, hpending]
      rfl
    · intro session' hsession
      cases hsession
    · rw [notMem_boot_append (by simp)]
      exact h.formatted

theorem follows_init (board : Board) (vols : Volumes) : Follows board vols [] ⟨vols, none⟩ := by
  refine ⟨rfl, ?_, (and_iff_left fun _ => List.not_mem_nil).symm⟩
  intro session hsession
  cases hsession

/-- **An orderly run** from any file systems. -/
theorem follows_run (hroot : HasRoot board) {as : List Action}
    (horderly : Meets (step board) Orderly ⟨vols, none⟩ as)
    (hrun : run (step board) ⟨vols, none⟩ as = some s) : Follows board vols as s := by
  have hfollows : Follows board vols ([] ++ as) s :=
    history_run (step board) (fun _ _ _ _ h hcond hstep => follows_step hroot h hcond hstep)
      (follows_init board vols) horderly hrun
  rwa [List.nil_append] at hfollows

/-- While the power is off nothing is pending. -/
theorem Follows.filesAt (h : Follows board vols past s) (hoff : s.session = none) :
    filesAt board s.vols = filesFrom (Boot.filesAt board vols) (history past) := by
  rw [← h.settled, Device.settled, hoff]
  rfl

end

/-- **An orderly run is its history.** From a device without stored credentials,
    in every run in which what start-up calls works and every save and reset is
    completed before the next one begins: a start connects as after the events
    of the run one by one, so with the pair of the last success since the last
    reset exactly when no key is left over; and it formats the device exactly
    when it is the first start and finds no file system. -/
theorem orderly_refines (board : Board) (hroot : HasRoot board) (vols : Volumes)
    (hblank : ∀ files, vols (rootDevice board) = some files → files = noFiles) (as : List Action)
    (s : Device) (hlimits : ∀ ev ∈ history as, ev.InLimits)
    (horderly : Meets (step board) Orderly ⟨vols, none⟩ as)
    (hrun : run (step board) ⟨vols, none⟩ as = some s) (hoff : s.session = none) (env : Env)
    (henv : env.Works) :
    (main board env s.vols).connect = load rtWlanSsidMaxLength (filesAfter (history as)) ∧
    ((main board env s.vols).connect = expected (history as) ↔ NoKeyLeft (history as)) ∧
    (.dfsMkfs (rootDevice board) ∈ (main board env s.vols).calls ↔
      vols (rootDevice board) = none ∧ ∀ env', .boot env' ∉ as) := by
  have hfollows := follows_run hroot horderly hrun
  have hfound : filesAt board vols = noFiles := by
    rw [filesAt]
    cases hfiles : vols (rootDevice board) with
    | none => rfl
    | some files => exact hblank files hfiles
  have hconnect : (main board env s.vols).connect =
      load rtWlanSsidMaxLength (filesAfter (history as)) := by
    rw [(main_settled hroot henv s.vols).1, hfollows.filesAt hoff, hfound]
    rfl
  refine ⟨hconnect, ?_, ?_⟩
  · rw [hconnect]
    exact load_iff (history as) hlimits
  · rw [(main_works hroot henv s.vols).2.2]
    exact hfollows.formatted

theorem Env.plain_works (connected : Bool) : (Env.plain connected).Works := by
  refine ⟨fun _ => rfl, ?_, ?_⟩
  · intro devices n vols name h
    show (devices name && (vols name).isSome) = _
    rw [h, Bool.true_and]
  · intro devices vols name h
    exact if_pos h

/-- A first start, an open network that is saved, and the next start. -/
def openRun : List Action :=
  [.boot (.plain false), .callback (fun _ => true) (some (.lit "mall")) none true, .jobStep 0,
    .jobStep 0, .powerOff]

theorem orderly_openRun : Meets (step userBoard) Orderly ⟨fun _ => none, none⟩ openRun := by
  refine .cons rfl (Env.plain_works false) (.cons rfl ⟨fun _ => rfl, ?_⟩
    (.cons rfl trivial (.cons rfl trivial (.cons rfl ?_ trivial))))
  all_goals
    intro session hsession
    obtain rfl := Option.some.inj hsession
    rfl

theorem orderly_refines_open :
    ∃ s, run (step userBoard) ⟨fun _ => none, none⟩ openRun = some s ∧
      (main userBoard (.plain true) s.vols).connect = some ⟨.lit "mall", none⟩ ∧
      .dfsMkfs .flash ∉ (main userBoard (.plain true) s.vols).calls := by
  obtain ⟨s, hrun, hoff⟩ : ∃ s, run (step userBoard) ⟨fun _ => none, none⟩ openRun = some s ∧
      s.session = none := ⟨_, rfl, rfl⟩
  obtain ⟨hconnect, -, hformat⟩ := orderly_refines userBoard (by decide) (fun _ => none)
    (fun _ h => by cases h) openRun s (by decide) orderly_openRun hrun hoff (.plain true)
    (Env.plain_works true)
  refine ⟨s, hrun, hconnect.trans (by decide), fun hmem => ?_⟩
  exact (hformat.mp hmem).2 (.plain false) List.mem_cons_self

/-! ## From any files -/

/-- **What was stored before is forgotten.** Whatever the two files hold at first,
    in every run in which what start-up calls works and every save and reset is
    completed before the next one begins: once there has been a reset or a
    success with a key, a start connects with the SSID of the last success since
    the last reset and the last key since then, which is the pair of that success
    exactly when no key is left over; and until then the password file is the one
    found at first. -/
theorem orderly_forgets (board : Board) (hroot : HasRoot board) (vols : Volumes) (as : List Action)
    (s : Device) (hlimits : ∀ ev ∈ history as, ev.InLimits)
    (horderly : Meets (step board) Orderly ⟨vols, none⟩ as)
    (hrun : run (step board) ⟨vols, none⟩ as = some s) (hoff : s.session = none) :
    ((∃ ev ∈ history as, ev.settles) → ∀ env, env.Works →
      (main board env s.vols).connect =
          ((lastPair (history as)).map fun p => ⟨p.1, nonEmpty (lastKey (history as))⟩) ∧
        ((main board env s.vols).connect = expected (history as) ↔ NoKeyLeft (history as))) ∧
    ((∀ ev ∈ history as, ev.settles = false) →
      filesAt board s.vols .password = filesAt board vols .password) := by
  have hfiles := (follows_run hroot horderly hrun).filesAt hoff
  constructor
  · intro hsettles env henv
    have hconnect : (main board env s.vols).connect =
        load rtWlanSsidMaxLength (filesAfter (history as)) := by
      rw [(main_settled hroot henv s.vols).1, hfiles, filesFrom_of_settles hsettles _ noFiles]
      rfl
    rw [hconnect]
    exact ⟨load_filesAfter (history as) hlimits, load_iff (history as) hlimits⟩
  · intro hnone
    rw [hfiles]
    exact filesFrom_password hnone _

/-- A save was cut off in a protected network; then another one is saved. -/
def recoverRun : List Action :=
  [.boot (.plain false),
    .callback (fun _ => true) (some (.lit "harbour")) (some (.lit "lantern")) true, .jobStep 0,
    .jobStep 0, .jobStep 0, .jobStep 0, .powerOff]

theorem orderly_recoverRun (vols : Volumes) :
    Meets (step userBoard) Orderly ⟨vols, none⟩ recoverRun := by
  refine .cons rfl (Env.plain_works false) (.cons rfl ⟨fun _ => rfl, ?_⟩
    (.cons rfl trivial (.cons rfl trivial (.cons rfl trivial (.cons rfl trivial
      (.cons rfl ?_ trivial))))))
  all_goals
    intro session hsession
    obtain rfl := Option.some.inj hsession
    rfl

theorem orderly_forgets_cut :
    let torn : Files := fun
      | .ssid => some []
      | .password => some (CStr.lit "anchor").bytes
    ∃ s, run (step userBoard) ⟨fun _ => some torn, none⟩ recoverRun = some s ∧
      (main userBoard (.plain true) s.vols).connect =
        some ⟨.lit "harbour", some (.lit "lantern")⟩ := by
  intro torn
  obtain ⟨s, hrun, hoff⟩ : ∃ s, run (step userBoard) ⟨fun _ => some torn, none⟩ recoverRun = some s ∧
      s.session = none := ⟨_, rfl, rfl⟩
  have hsettles : ∃ ev ∈ history recoverRun, ev.settles := by decide
  exact ⟨s, hrun, (((orderly_forgets userBoard (by decide) (fun _ => some torn) recoverRun s (by decide)
    (orderly_recoverRun _) hrun hoff).1 hsettles (.plain true) (Env.plain_works true)).1).trans
    (by decide)⟩

end W600Demo.Boot
