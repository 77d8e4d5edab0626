import W600Demo.Boot.Main
import W600Demo.Common.Run
import W600Demo.Wlan.PartialSave

/-!
# Where stored credentials come from

Any interleaving of starts, callbacks, `reset_wlan_cfg` and power failures, where
every call of start-up may fail and the power may fail between any two file
operations, as long as callbacks come one after another.

* `KnownFiles.step`, `KnownFiles.unlink`: one file operation of a save, or of a
  reset in between.
* `count_goOn`: a job that goes on leaves as many saves as there were.
* `inv_step`: what every action keeps.
* `boot_connects_known`: a start connects with an SSID of some success and with
  no key or the key of some success, and the other device is left alone.
-/

namespace W600Demo.Boot

open Flash Wlan

/-! ## The past -/

/-- The event of `Wlan.History` an action stands for. -/
def Action.event : Action → Option Event
  | .boot _ => some .reboot
  | .callback _ ssid key connected => some (.callback ssid key connected)
  | .reset => some .reset
  | .jobStep _ | .powerOff => none

/-- The events of a run. -/
def history (as : List Action) : List Event := as.filterMap Action.event

/-- A successful callback had this string for the file. -/
def Gave (past : List Action) : CfgFile → CStr → Prop
  | .ssid, s => ∃ key, .callback (some s) key true ∈ history past
  | .password, k => ∃ ssid, .callback (some ssid) (some k) true ∈ history past

/-- What a file holds is nothing, or what a success had for it. -/
def KnownFiles (past : List Action) (files : Files) : Prop :=
  ∀ f c, files f = some c → c = [] ∨ ∃ s, Gave past f s ∧ c = s.bytes

/-- Whole rewrites of files with such strings. -/
inductive Rewrites (past : List Action) : List FileOp → Prop
  | nil : Rewrites past []
  | cons (f : CfgFile) (s : CStr) (ops : List FileOp) (hs : Gave past f s)
    (hops : Rewrites past ops) : Rewrites past (.truncate f :: .append f s.bytes :: ops)

/-- What is left of a save: whole rewrites, perhaps behind the second half of
    one. -/
def Pending (past : List Action) (files : Files) (ops : List FileOp) : Prop :=
  Rewrites past ops ∨
    ∃ f s rest, ops = .append f s.bytes :: rest ∧ (∀ c, files f = some c → c = []) ∧
      Gave past f s ∧ Rewrites past rest

section

variable {past : List Action} {a : Action} {files : Files} {ops : List FileOp}

theorem history_append (as bs : List Action) : history (as ++ bs) = history as ++ history bs :=
  List.filterMap_append

theorem Gave.later {f : CfgFile} {s : CStr} (h : Gave past f s) (bs : List Action) :
    Gave (past ++ bs) f s := by
  cases f with
  | ssid =>
    obtain ⟨key, hmem⟩ := h
    exact ⟨key, by rw [history_append]; exact List.mem_append_left _ hmem⟩
  | password =>
    obtain ⟨ssid, hmem⟩ := h
    exact ⟨ssid, by rw [history_append]; exact List.mem_append_left _ hmem⟩

theorem KnownFiles.later (h : KnownFiles past files) (bs : List Action) :
    KnownFiles (past ++ bs) files := by
  intro f c hc
  apply (h f c hc).imp_right
  rintro ⟨s, hs, hbytes⟩
  exact ⟨s, hs.later bs, hbytes⟩

theorem Rewrites.later (h : Rewrites past ops) (bs : List Action) : Rewrites (past ++ bs) ops := by
  induction h with
  | nil => exact .nil
  | cons f s ops hs _ ih => exact .cons f s ops (hs.later bs) ih

theorem Rewrites.append {ops' : List FileOp} (h : Rewrites past ops) (h' : Rewrites past ops') :
    Rewrites past (ops ++ ops') := by
  induction h with
  | nil => exact h'
  | cons f s ops hs _ ih => exact .cons f s _ hs ih

theorem Pending.later (h : Pending past files ops) (bs : List Action) :
    Pending (past ++ bs) files ops := by
  apply h.imp (·.later bs)
  rintro ⟨f, s, rest, hops, hempty, hs, hrest⟩
  exact ⟨f, s, rest, hops, hempty, hs.later bs, hrest.later bs⟩

/-! ## File operations -/

theorem rewrites_saveFile (f : CfgFile) (opens : Bool) (s : Option CStr)
    (hs : ∀ t ∈ s, Gave past f t) : Rewrites past (saveFile f opens s) := by
  cases s with
  | none => exact .nil
  | some t =>
    cases opens with
    | false => exact .nil
    | true => exact .cons f t [] (hs t rfl) .nil

/-- What a callback has to write. -/
theorem rewrites_oneshotCallback (past : List Action) (opens : CfgFile → Bool)
    (ssid key : Option CStr) (connected : Bool) :
    Rewrites (past ++ [.callback opens ssid key connected])
      (oneshotCallback opens ssid key connected) := by
  cases ssid with
  | none => exact .nil
  | some ssid =>
    cases connected with
    | false => exact .nil
    | true =>
      have hmem : .callback (some ssid) key true ∈
          history (past ++ [.callback opens (some ssid) key true]) := by
        rw [history_append]
        exact List.mem_append_right _ (List.mem_singleton_self _)
      apply Rewrites.append
      · apply rewrites_saveFile
        intro t ht
        obtain rfl := Option.some.inj ht
        exact ⟨key, hmem⟩
      · apply rewrites_saveFile
        intro k hk
        obtain rfl : key = some k := hk
        exact ⟨ssid, hmem⟩

/-- The file an operation is about. -/
def target : FileOp → CfgFile
  | .truncate f => f
  | .append f _ => f
  | .unlink f => f

theorem applyOp_of_ne {op : FileOp} {g : CfgFile} (hg : g ≠ target op) :
    applyOp files op g = files g := by
  cases op <;> exact Function.update_of_ne hg _ _

/-- An operation after which this is known of its file. -/
theorem KnownFiles.applyOp {op : FileOp} (h : KnownFiles past files)
    (hop : ∀ c, Wlan.applyOp files op (target op) = some c →
      c = [] ∨ ∃ s, Gave past (target op) s ∧ c = s.bytes) :
    KnownFiles past (Wlan.applyOp files op) := by
  intro g c hc
  by_cases hg : g = target op
  · subst hg
    exact hop c hc
  · rw [applyOp_of_ne hg] at hc
    exact h g c hc

/-- **One operation of a save.** -/
theorem KnownFiles.step {op : FileOp} (h : KnownFiles past files)
    (hpending : Pending past files (op :: ops)) :
    KnownFiles past (Wlan.applyOp files op) ∧ Pending past (Wlan.applyOp files op) ops := by
  obtain hrewrites | ⟨f, s, rest, hops, hempty, hs, hrest⟩ := hpending
  · cases hrewrites with
    | cons f s rest hs hrest =>
      have hempty (c : Bytes) (hc : Wlan.applyOp files (.truncate f) f = some c) : c = [] := by
        rw [Wlan.applyOp, Function.update_self] at hc
        exact (Option.some.inj hc).symm
      exact ⟨h.applyOp fun c hc => .inl (hempty c hc), .inr ⟨f, s, rest, rfl, hempty, hs, hrest⟩⟩
  · obtain ⟨rfl, rfl⟩ := List.cons.inj hops
    refine ⟨h.applyOp fun c hc => .inr ⟨s, hs, ?_⟩, .inl hrest⟩
    rw [target, Wlan.applyOp, Function.update_self] at hc
    obtain ⟨c0, hc0, rfl⟩ := Option.map_eq_some_iff.mp hc
    rw [hempty c0 hc0, List.nil_append]

/-- **One operation of a reset**, perhaps in the middle of a save. -/
theorem KnownFiles.unlink (h : KnownFiles past files) (hpending : Pending past files ops)
    (f : CfgFile) :
    KnownFiles past (Wlan.applyOp files (.unlink f)) ∧
      Pending past (Wlan.applyOp files (.unlink f)) ops := by
  have hgone : Wlan.applyOp files (.unlink f) f = none := Function.update_self _ _ _
  refine ⟨h.applyOp fun c hc => absurd (hgone.symm.trans hc) (by simp), hpending.imp_right ?_⟩
  rintro ⟨g, s, rest, hops, hempty, hs, hrest⟩
  refine ⟨g, s, rest, hops, fun c hc => ?_, hs, hrest⟩
  by_cases hg : g = f
  · rw [hg, hgone] at hc
    cases hc
  · rw [applyOp_of_ne hg] at hc
    exact hempty c hc

end

/-! ## Jobs -/

/-- The file operations of a job. -/
def Job.ops (job : Job) : List FileOp := job.next :: job.rest

/-- A save. -/
def Job.isSave (job : Job) : Bool := job.task = .oneshot

section

variable {task : Task} {ops : List FileOp} {before after : List Job} {job job' : Job}

theorem mem_jobOf (h : job ∈ jobOf task ops) : job.task = task ∧ job.ops = ops := by
  cases ops with
  | nil => cases h
  | cons op ops =>
    obtain rfl := List.mem_singleton.mp h
    exact ⟨rfl, rfl⟩

/-- A job that goes on is what it was, and the others are left alone. -/
theorem mem_goOn (h : job' ∈ before ++ jobOf job.task job.rest ++ after) :
    job' ∈ before ++ after ∨ job'.task = job.task ∧ job'.ops = job.rest := by
  rw [List.append_assoc, List.mem_append, List.mem_append] at h
  rw [List.mem_append]
  obtain hbefore | hgoes | hafter := h
  · exact .inl (.inl hbefore)
  · exact .inr (mem_jobOf hgoes)
  · exact .inl (.inr hafter)

theorem mem_of_mem_others (h : job' ∈ before ++ after) : job' ∈ before ++ job :: after := by
  rw [List.mem_append] at h ⊢
  exact h.imp_right (List.mem_cons_of_mem job)

theorem count_jobOf (task : Task) (ops : List FileOp) :
    (jobOf task ops).countP Job.isSave ≤ if task = .oneshot then 1 else 0 := by
  cases ops with
  | nil => exact Nat.zero_le _
  | cons op ops => cases task <;> exact Nat.le_refl _

/-- **A job that goes on** leaves as many saves as there were, or one less. -/
theorem count_goOn (before after : List Job) (job : Job) :
    (before ++ jobOf job.task job.rest ++ after).countP Job.isSave ≤
      (before ++ job :: after).countP Job.isSave := by
  have hjob := count_jobOf job.task job.rest
  rw [List.countP_append, List.countP_append, List.countP_append, List.countP_cons]
  simp only [Job.isSave, decide_eq_true_eq]
  omega

/-- Beside the only save there is none. -/
theorem shell_of_others (hone : (before ++ job :: after).countP Job.isSave ≤ 1)
    (hjob : job.task = .oneshot) (h : job' ∈ before ++ after) : job'.task ≠ .oneshot := by
  intro hjob'
  have hpos : 0 < (before ++ after).countP Job.isSave :=
    List.countP_pos_iff.mpr ⟨job', h, decide_eq_true hjob'⟩
  have hsave : job.isSave = true := decide_eq_true hjob
  rw [List.countP_append, List.countP_cons, if_pos hsave] at hone
  rw [List.countP_append] at hpos
  omega

end

/-! ## Runs -/

/-- What the file system calls document, and that callbacks come one after
    another: none comes while another one saves. -/
def Serial (s : Device) : Action → Prop
  | .boot env => env.dfs.Documented
  | .callback _ _ _ _ => ∀ session ∈ s.session, ∀ job ∈ session.jobs, job.task ≠ .oneshot
  | .reset | .jobStep _ | .powerOff => True

/-- What is left of the saves. -/
def Saves (past : List Action) (files : Files) (jobs : List Job) : Prop :=
  ∀ job ∈ jobs, job.task = .oneshot → Pending past files job.ops

/-- The jobs of a session: at most one save, and resets. -/
structure JobsInv (jobs : List Job) : Prop where
  one : jobs.countP Job.isSave ≤ 1
  resets : ∀ job ∈ jobs, job.task = .shell → ∀ op ∈ job.ops, ∃ f, op = .unlink f

/-- What is kept of a session. -/
structure SessionInv (board : Board) (past : List Action) (vols : Volumes) (session : Session) :
    Prop where
  root : ∀ name, session.root = some name → name = rootDevice board
  saves : ∀ name, session.root = some name →
    ∀ files, vols name = some files → Saves past files session.jobs
  jobs : JobsInv session.jobs

/-- What every action keeps, from the file systems `vols`. -/
structure Inv (board : Board) (vols : Volumes) (past : List Action) (s : Device) : Prop where
  known : ∀ files, s.vols (rootDevice board) = some files → KnownFiles past files
  other : ∀ name, name ≠ rootDevice board → s.vols name = vols name
  session : ∀ session ∈ s.session, SessionInv board past s.vols session

section

variable {board : Board} {vols : Volumes} {past : List Action} {s s' : Device} {a : Action}
  {files : Files} {jobs jobs' : List Job}

theorem knownFiles_noFiles : KnownFiles past noFiles := by
  intro f c hc
  cases hc

/-- Start-up reads files of which this is known, too. -/
theorem known_main {env : Env} (hdfs : env.dfs.Documented) {vols1 : Volumes}
    (h : ∀ files, vols1 (rootDevice board) = some files → KnownFiles past files) :
    ∀ files, (main board env vols1).vols (rootDevice board) = some files → KnownFiles past files := by
  intro files hfiles
  obtain hsame | ⟨fs, hfs, hupdate⟩ := main_vols board hdfs vols1
  · exact h files (hsame ▸ hfiles)
  · rw [hupdate, Function.update_self] at hfiles
    obtain rfl | rfl := hfs
    · cases hfiles
    · obtain rfl := Option.some.inj hfiles
      exact knownFiles_noFiles

theorem Inv.later (h : Inv board vols past s) (bs : List Action) : Inv board vols (past ++ bs) s := by
  refine ⟨fun files hfiles => (h.known files hfiles).later bs, h.other, fun session hsession => ?_⟩
  obtain ⟨hroot, hsaves, hjobs⟩ := h.session session hsession
  refine ⟨hroot, fun name hname files hfiles job hjob hsave => ?_, hjobs⟩
  exact (hsaves name hname files hfiles job hjob hsave).later bs

/-- A job that begins. -/
theorem JobsInv.start (h : JobsInv jobs) {task : Task} {ops : List FileOp}
    (hone : task = .oneshot → ∀ job ∈ jobs, job.task ≠ .oneshot)
    (hresets : task = .shell → ∀ op ∈ ops, ∃ f, op = .unlink f) : JobsInv (jobs ++ jobOf task ops) := by
  constructor
  · have hnew := count_jobOf task ops
    rw [List.countP_append]
    split_ifs at hnew with htask
    · have hnone : jobs.countP Job.isSave = 0 :=
        List.countP_eq_zero.mpr fun job hjob => by simpa [Job.isSave] using hone htask job hjob
      omega
    · have := h.one
      omega
  · intro job hjob hshell
    obtain hold | hnew := List.mem_append.mp hjob
    · exact h.resets job hold hshell
    · obtain ⟨rfl, rfl⟩ := mem_jobOf hnew
      exact hresets hshell

/-- A job that goes on. -/
theorem JobsInv.goOn {before after : List Job} {job : Job} (h : JobsInv (before ++ job :: after)) :
    JobsInv (before ++ jobOf job.task job.rest ++ after) := by
  refine ⟨(count_goOn before after job).trans h.one, fun job' hjob' hshell op hop => ?_⟩
  obtain hother | ⟨htask, hops⟩ := mem_goOn hjob'
  · exact h.resets job' (mem_of_mem_others hother) hshell op hop
  · rw [hops] at hop
    exact h.resets job (List.mem_append_right _ List.mem_cons_self) (htask ▸ hshell) op
      (List.mem_cons_of_mem _ hop)

/-- **The next operation of a job**, whichever it is, keeps what is known. -/
theorem KnownFiles.goOn {before after : List Job} {job : Job} (h : KnownFiles past files)
    (hsaves : Saves past files (before ++ job :: after)) (hjobs : JobsInv (before ++ job :: after)) :
    KnownFiles past (Wlan.applyOp files job.next) ∧
      Saves past (Wlan.applyOp files job.next) (before ++ jobOf job.task job.rest ++ after) := by
  have hmem : job ∈ before ++ job :: after := List.mem_append_right _ List.mem_cons_self
  cases htask : job.task with
  | oneshot =>
    obtain ⟨hknown, hrest⟩ := h.step (hsaves job hmem htask)
    refine ⟨hknown, fun job' hjob' hsave => ?_⟩
    rw [← htask] at hjob'
    obtain hother | ⟨-, hops⟩ := mem_goOn hjob'
    · exact absurd hsave (shell_of_others hjobs.one htask hother)
    · rw [hops]
      exact hrest
  | shell =>
    obtain ⟨f, hunlink⟩ := hjobs.resets job hmem htask job.next List.mem_cons_self
    rw [hunlink]
    refine ⟨(h.unlink (.inl .nil) f).1, fun job' hjob' hsave => ?_⟩
    rw [← htask] at hjob'
    obtain hother | ⟨hsame, -⟩ := mem_goOn hjob'
    · exact (h.unlink (hsaves job' (mem_of_mem_others hother) hsave) f).2
    · rw [hsame, htask] at hsave
      cases hsave

/-- An action that leaves the file systems alone. -/
theorem Inv.with_session {vols1 : Volumes} {session session' : Session}
    (h : Inv board vols past ⟨vols1, some session⟩) (h' : SessionInv board past vols1 session') :
    Inv board vols past ⟨vols1, some session'⟩ := by
  refine ⟨h.known, h.other, ?_⟩
  intro session1 hsession
  obtain rfl := Option.some.inj hsession
  exact h'

/-- A job that begins, and its file operations. -/
theorem Inv.start {vols1 : Volumes} {session : Session} {task : Task} {ops : List FileOp}
    (h : Inv board vols past ⟨vols1, some session⟩) (hjobs : JobsInv (session.jobs ++ jobOf task ops))
    (hsave : task = .oneshot → Rewrites past ops) :
    Inv board vols past ⟨vols1, some (session.start task ops)⟩ := by
  obtain ⟨hroot, hsaves, -⟩ := h.session session rfl
  apply h.with_session
  refine ⟨hroot, fun name hname files hfiles job hjob honeshot => ?_, hjobs⟩
  obtain hold | hnew := List.mem_append.mp hjob
  · exact hsaves name hname files hfiles job hold honeshot
  · obtain ⟨rfl, rfl⟩ := mem_jobOf hnew
    exact .inl (hsave honeshot)

/-- A file operation at the root. -/
theorem Inv.goOn {vols1 : Volumes} {root : Option AreaName} {before after : List Job} {job : Job}
    (h : Inv board vols past ⟨vols1, some ⟨root, before ++ job :: after⟩⟩) :
    Inv board vols past ⟨applyRoot root vols1 job.next,
      some ⟨root, before ++ jobOf job.task job.rest ++ after⟩⟩ := by
  obtain ⟨hroot, hsaves, hjobs⟩ := h.session _ rfl
  cases root with
  | none =>
    apply h.with_session
    refine ⟨hroot, fun name hname => ?_, hjobs.goOn⟩
    cases hname
  | some name =>
    obtain rfl := hroot name rfl
    -- the operation is made on the files of the device at the root
    have hfiles (files : Files) (hafter : (applyRoot (some (rootDevice board)) vols1 job.next)
        (rootDevice board) = some files) :
        KnownFiles past files ∧
          Saves past files (before ++ jobOf job.task job.rest ++ after) := by
      rw [applyRoot, Function.update_self] at hafter
      obtain ⟨files0, hfiles0, rfl⟩ := Option.map_eq_some_iff.mp hafter
      exact (h.known files0 hfiles0).goOn (hsaves _ rfl files0 hfiles0) hjobs
    refine ⟨fun files hafter => (hfiles files hafter).1, ?_, ?_⟩
    · intro name hname
      rw [← h.other name hname]
      exact Function.update_of_ne hname _ _
    · intro session' hsession
      obtain rfl := Option.some.inj hsession
      refine ⟨hroot, fun name hname files hafter => ?_, hjobs.goOn⟩
      obtain rfl := hroot name hname
      exact (hfiles files hafter).2

/-- **What an action keeps.** -/
theorem inv_step (h : Inv board vols past s) (hcond : Serial s a) (hstep : step board s a = some s') :
    Inv board vols (past ++ [a]) s' := by
  have hlater := h.later [a]
  cases Step.of_step hstep with
  | boot vols1 env =>
    refine ⟨known_main hcond hlater.known, ?_, ?_⟩
    · intro name hname
      rw [← h.other name hname]
      obtain hsame | ⟨fs, -, hupdate⟩ := main_vols board hcond vols1
      · exact congrFun hsame name
      · dsimp only
        rw [hupdate, Function.update_of_ne hname]
    · intro session hsession
      obtain rfl := Option.some.inj hsession
      refine ⟨fun name hname => (main_root hcond hname).1, ?_, ⟨Nat.zero_le 1, ?_⟩⟩
      · intro _ _ _ _ job hjob
        cases hjob
      · intro job hjob
        cases hjob
  | callback vols1 session opens ssid key connected =>
    refine hlater.start ((hlater.session session rfl).jobs.start ?_ ?_) ?_
    · exact fun _ => hcond session rfl
    · intro htask
      cases htask
    · exact fun _ => rewrites_oneshotCallback past opens ssid key connected
  | reset vols1 session =>
    refine hlater.start ((hlater.session session rfl).jobs.start ?_ ?_) ?_
    · intro htask
      cases htask
    · intro _ op hop
      have hmem : op ∈ [FileOp.unlink .ssid, .unlink .password] := hop
      simp only [List.mem_cons, List.not_mem_nil, or_false] at hmem
      exact hmem.elim (fun h => ⟨_, h⟩) fun h => ⟨_, h⟩
    · intro htask
      cases htask
  | jobStep vols1 root before after job => exact hlater.goOn
  | powerOff vols1 session =>
    exact ⟨hlater.known, hlater.other, fun session' hsession => by cases hsession⟩

theorem inv_init (board : Board) (vols : Volumes)
    (hblank : ∀ files, vols (rootDevice board) = some files → files = noFiles) :
    Inv board vols [] ⟨vols, none⟩ := by
  refine ⟨?_, fun name _ => rfl, ?_⟩
  · intro files hfiles
    rw [hblank files hfiles]
    exact knownFiles_noFiles
  · intro session hsession
    cases hsession

/-! ## Loading -/

/-- What a file holds, as a string. -/
theorem KnownFiles.contents {files : Files} (h : KnownFiles past files) (f : CfgFile) :
    ∃ s : Option CStr, files f = s.map CStr.bytes ∧ ∀ t ∈ s, t = .empty ∨ Gave past f t := by
  cases hf : files f with
  | none => exact ⟨none, rfl, fun t ht => by cases ht⟩
  | some c =>
    obtain rfl | ⟨t, ht, rfl⟩ := h f c hf
    · refine ⟨some .empty, rfl, fun t ht => .inl ?_⟩
      exact (Option.some.inj ht).symm
    · refine ⟨some t, rfl, fun t' ht' => .inr ?_⟩
      obtain rfl := Option.some.inj ht'
      exact ht

/-- A load from such files. -/
theorem load_known {files : Files} (h : KnownFiles past files)
    (hlimits : ∀ ev ∈ history past, ev.InLimits) {call : Connect}
    (hload : load rtWlanSsidMaxLength files = some call) :
    Gave past .ssid call.ssid ∧ ∀ k ∈ call.key, Gave past .password k := by
  obtain ⟨ssid, hssid, hs⟩ := h.contents .ssid
  obtain ⟨key, hkey, hk⟩ := h.contents .password
  have hkeyLimit : ∀ k ∈ key, k.length ≤ rtWlanSsidMaxLength := by
    intro k hmem
    obtain rfl | ⟨ssid', hgave⟩ := hk k hmem
    · exact Nat.zero_le _
    · exact (hlimits _ hgave).2.2 k rfl
  cases ssid with
  | none =>
    rw [load_eq hssid hkey (fun s hs => by cases hs) hkeyLimit] at hload
    cases hload
  | some t =>
    obtain rfl | hgave := hs t rfl
    · rw [load_of_empty hssid] at hload
      cases hload
    · have hlimit : ∀ s ∈ some t, 0 < s.length ∧ s.length ≤ rtWlanSsidMaxLength := by
        intro s hs
        obtain rfl := Option.some.inj hs
        obtain ⟨key', hmem⟩ := hgave
        exact ⟨(hlimits _ hmem).1, (hlimits _ hmem).2.1⟩
      rw [load_eq hssid hkey hlimit hkeyLimit] at hload
      obtain rfl := Option.some.inj hload
      refine ⟨hgave, fun k hmem => ?_⟩
      obtain ⟨hkey', hne⟩ := Option.filter_eq_some_iff.mp hmem
      obtain rfl | hgave' := hk k hkey'
      · exact absurd hne (by decide)
      · exact hgave'

end

/-- **Start-up connects with what a success had.** From a device without stored
    credentials, in every interleaving of starts whose calls may fail,
    callbacks that come one after another, resets and power failures: a start,
    whenever it comes, connects with the SSID of a successful callback of the
    past, and with no key or with the key of one; the file system of the other
    device is what it was. -/
theorem boot_connects_known (board : Board) (vols : Volumes)
    (hblank : ∀ files, vols (rootDevice board) = some files → files = noFiles) (as : List Action)
    (s : Device) (hlimits : ∀ ev ∈ history as, ev.InLimits)
    (hserial : Meets (step board) Serial ⟨vols, none⟩ as)
    (hrun : run (step board) ⟨vols, none⟩ as = some s) :
    (∀ env call, env.dfs.Documented → (main board env s.vols).connect = some call →
      Gave as .ssid call.ssid ∧ ∀ k ∈ call.key, Gave as .password k) ∧
    ∀ name, name ≠ rootDevice board → s.vols name = vols name := by
  have hinv : Inv board vols ([] ++ as) s :=
    history_run (step board) (fun _ _ _ _ h hcond hstep => inv_step h hcond hstep)
      (inv_init board vols hblank) hserial hrun
  rw [List.nil_append] at hinv
  refine ⟨?_, hinv.other⟩
  intro env call hdfs hcall
  refine load_known ?_ hlimits hcall
  obtain hnone | hsome := files_mountRoot board hdfs s.vols
  · rw [hnone]
    exact knownFiles_noFiles
  · exact known_main hdfs hinv.known _ hsome

/-- A board with a user area only. -/
def userBoard : Board where
  base := 0x8000000
  blksize := 4096
  area
    | .flash => ⟨0x81F0000, 0x10000⟩
    | .exflash => ⟨0, 0⟩
  registers _ := true

/-- File system calls that succeed whenever they can. -/
def Dfs.plain : Dfs where
  mount devices _ vols name := devices name && (vols name).isSome
  mkfs devices vols name := if devices name then Function.update vols name (some noFiles) else vols

theorem Dfs.plain_documented : Dfs.plain.Documented := by
  constructor
  · intro devices n vols name h
    exact (Bool.and_eq_true_iff.mp h).2
  · intro devices vols name
    unfold Dfs.plain
    dsimp only
    split_ifs with hdevice
    · exact .inr ⟨_, .inr rfl, rfl⟩
    · exact .inl rfl

/-- A start on which everything works. -/
def Env.plain (connected : Bool) : Env where
  registers _ := true
  dfs := .plain
  connected := connected

/-- A second network is saved in the session of the first; the power fails while
    its password is written. -/
def cutRun : List Action :=
  [.boot (.plain false), .callback (fun _ => true) (some (.lit "attic")) none true, .jobStep 0,
    .jobStep 0, .callback (fun _ => true) (some (.lit "lobby")) (some (.lit "marble")) true,
    .jobStep 0, .jobStep 0, .jobStep 0, .powerOff]

theorem serial_cutRun : Meets (step userBoard) Serial ⟨fun _ => none, none⟩ cutRun := by
  refine .cons rfl Dfs.plain_documented (.cons rfl ?_ (.cons rfl trivial (.cons rfl trivial
    (.cons rfl ?_ (.cons rfl trivial (.cons rfl trivial (.cons rfl trivial
      (.cons rfl trivial trivial))))))))
  all_goals
    intro session hsession job hjob
    obtain rfl := Option.some.inj hsession
    cases hjob

theorem boot_connects_known_cut :
    ∃ s, run (step userBoard) ⟨fun _ => none, none⟩ cutRun = some s ∧
      (main userBoard (.plain false) s.vols).connect = some ⟨.lit "lobby", none⟩ ∧
      Gave cutRun .ssid (.lit "lobby") := by
  obtain ⟨s, hrun⟩ : ∃ s, run (step userBoard) ⟨fun _ => none, none⟩ cutRun = some s := ⟨_, rfl⟩
  have hcall : (main userBoard (.plain false) s.vols).connect = some ⟨.lit "lobby", none⟩ := by
    have hs : run (step userBoard) ⟨fun _ => none, none⟩ cutRun = _ := rfl
    rw [hs] at hrun
    obtain rfl := Option.some.inj hrun
    decide
  have h := boot_connects_known userBoard (fun _ => none) (fun _ h => by cases h) cutRun s (by decide)
    serial_cutRun hrun
  exact ⟨s, hrun, hcall, (h.1 _ _ Dfs.plain_documented hcall).1⟩

end W600Demo.Boot
