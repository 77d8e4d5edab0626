import W600Demo.Flash.Partitions
import W600Demo.Wlan.History

/-!
# Start-up and its interleavings (`src/main.cpp`, lines 256–343)

`main` registers the flash devices, mounts one of them at `/` after formatting
it if need be, connects with the stored credentials, and starts the oneshot
configuration when that did not connect. From then on callbacks save
credentials, the shell command `reset_wlan_cfg` removes them, and the power may
fail between any two file operations. RT-Thread's file system calls are not part
of the source: they are a parameter of a start.

* `main_vols`, `main_root`: what `main` can change and mount, when the file
  system calls do what is documented.
* `main_works`: what it does when nothing fails.
* `Step.of_step`: the actions, case by case.
-/

namespace W600Demo.Boot

open Flash Wlan

/-! ## The code -/

/-- The `lfs` file system on each device, `none` where there is none. -/
abbrev Volumes := AreaName → Option Files

/-- A file system after `dfs_mkfs`. -/
def noFiles : Files := fun _ => none

/-- RT-Thread's file system calls, given the registered devices: whether the
    `n`-th `dfs_mount(name, "/", "lfs", 0, NULL)` of a start returns 0, and the
    file systems after `dfs_mkfs("lfs", name)`. -/
structure Dfs where
  mount : (AreaName → Bool) → ℕ → Volumes → AreaName → Bool
  mkfs : (AreaName → Bool) → Volumes → AreaName → Volumes

/-- What start-up meets: whether `rt_mtd_nor_register_device` takes a device,
    the file system calls, and what `rt_wlan_is_connected` answers. -/
structure Env where
  registers : AreaName → Bool
  dfs : Dfs
  connected : Bool

/-- What `main` calls. -/
inductive Call
  | dfsMount (name : AreaName)
  | dfsMkfs (name : AreaName)
  | rtWlanConnect (call : Connect)
  | wmOneshotStart (mode : ℕ)
  | rtWlanStartAp (ssid : CStr) (password : Option CStr)
  | mqttInit
deriving DecidableEq

/-- `APP_AUTOSTART_ONESHOT_MODE` (`rtconfig.h` line 447). -/
def oneshotMode : ℕ := 2

/-- `APP_AUTOSTART_ONESHOT_AP_SSID` (`rtconfig.h` line 448). -/
def oneshotApSsid : CStr := .lit "W600-OneShot"

/-- `APP_AUTOSTART_ONESHOT_AP_PASSWORD` (`rtconfig.h` line 449). -/
def oneshotApPassword : CStr := .empty

/-- Lines 330–333. -/
def oneshotCalls : List Call :=
  [.wmOneshotStart oneshotMode,
    .rtWlanStartAp oneshotApSsid
      (if oneshotApPassword.length = 0 then none else some oneshotApPassword)]

section

variable (board : Board)

/-- The device to mount (line 290). -/
def rootDevice : AreaName :=
  if (board.area .exflash).start ≠ 0 ∧ (board.area .exflash).len ≠ 0 then .exflash else .flash

/-- The devices that are registered. -/
def devices (name : AreaName) : Bool := (board.findDevice name).isSome

/-- The file systems after mounting, the device at `/`, and the calls. -/
structure Mounted where
  vols : Volumes
  root : Option AreaName
  calls : List Call

/-- The files at `/`. -/
def Mounted.files (mounted : Mounted) : Files := (mounted.root.bind mounted.vols).getD noFiles

/-- Lines 294–302 and 308–316: the second attempt comes after a format. -/
def mountUser (dfs : Dfs) (vols : Volumes) (name : AreaName) : Mounted :=
  if dfs.mount (devices board) 0 vols name then ⟨vols, some name, [.dfsMount name]⟩
  else
    let vols := dfs.mkfs (devices board) vols name
    ⟨vols, if dfs.mount (devices board) 1 vols name then some name else none,
      [.dfsMount name, .dfsMkfs name, .dfsMount name]⟩

/-- The board at a start. -/
def Env.registered (env : Env) : Board := { board with registers := env.registers }

/-- Lines 288–319: nothing is mounted when `_flashdev_init` fails. -/
def mountRoot (env : Env) (vols : Volumes) : Mounted :=
  if (flashdevInit (env.registered board)).1 = rtEok then
    mountUser (env.registered board) env.dfs vols (rootDevice board)
  else ⟨vols, none, []⟩

/-- What `main` leaves behind. -/
structure Booted where
  vols : Volumes
  root : Option AreaName
  connect : Option Connect
  calls : List Call

/-- `main` (lines 288–339), from the file systems it finds. -/
def main (env : Env) (vols : Volumes) : Booted :=
  let mounted := mountRoot board env vols
  let connect := load rtWlanSsidMaxLength mounted.files
  { vols := mounted.vols
    root := mounted.root
    connect := connect
    calls := mounted.calls ++ (connect.map Call.rtWlanConnect).toList ++
      (if env.connected then [] else oneshotCalls) ++ [.mqttInit] }

end

/-! ## The running device -/

/-- Who makes file operations: whoever calls `app_oneshot_callback`, or the
    shell. -/
inductive Task
  | oneshot
  | shell
deriving DecidableEq

/-- The file operations a task has still to make. -/
structure Job where
  task : Task
  next : FileOp
  rest : List FileOp

/-- The job with these operations, if there are any. -/
def jobOf (task : Task) : List FileOp → List Job
  | [] => []
  | op :: ops => [⟨task, op, ops⟩]

/-- A device that is switched on: the mounted device, and the jobs that run. -/
structure Session where
  root : Option AreaName
  jobs : List Job := []

/-- A job begins, beside those that run. -/
def Session.start (session : Session) (task : Task) (ops : List FileOp) : Session :=
  { session with jobs := session.jobs ++ jobOf task ops }

/-- A session begins with nothing to write. -/
def Booted.session (booted : Booted) : Session where
  root := booted.root

/-- The file systems, and what runs; `none` while the power is off. -/
structure Device where
  vols : Volumes
  session : Option Session := none

/-- What can happen to the device: `main` runs, `app_oneshot_callback` is called,
    `reset_wlan_cfg` is entered, one of the jobs makes its next file operation,
    or the power fails. -/
inductive Action
  | boot (env : Env)
  | callback (opens : CfgFile → Bool) (ssid key : Option CStr) (connected : Bool)
  | reset
  | jobStep (i : ℕ)
  | powerOff

/-- A file operation on what is mounted. -/
def applyRoot (root : Option AreaName) (vols : Volumes) (op : FileOp) : Volumes :=
  match root with
  | none => vols
  | some name => Function.update vols name ((vols name).map (applyOp · op))

/-- One action. Callbacks and resets may come at any time while the device is
    on, also while others are at work. -/
def step (board : Board) (s : Device) (a : Action) : Option Device :=
  match a, s.session with
  | .boot env, none =>
    let booted := main board env s.vols
    some ⟨booted.vols, some booted.session⟩
  | .callback opens ssid key connected, some session =>
    some ⟨s.vols, some (session.start .oneshot (oneshotCallback opens ssid key connected))⟩
  | .reset, some session => some ⟨s.vols, some (session.start .shell Wlan.reset)⟩
  | .jobStep i, some session =>
    match session.jobs[i]? with
    | none => none
    | some job =>
      some ⟨applyRoot session.root s.vols job.next,
        some { session with
          jobs := session.jobs.take i ++ jobOf job.task job.rest ++ session.jobs.drop (i + 1) }⟩
  | .powerOff, some _ => some ⟨s.vols, none⟩
  | _, _ => none

/-- The actions, case by case. -/
inductive Step (board : Board) : Device → Action → Device → Prop
  | boot (vols : Volumes) (env : Env) :
    Step board ⟨vols, none⟩ (.boot env)
      ⟨(main board env vols).vols, some (main board env vols).session⟩
  | callback (vols : Volumes) (session : Session) (opens : CfgFile → Bool) (ssid key : Option CStr)
    (connected : Bool) :
    Step board ⟨vols, some session⟩ (.callback opens ssid key connected)
      ⟨vols, some (session.start .oneshot (oneshotCallback opens ssid key connected))⟩
  | reset (vols : Volumes) (session : Session) :
    Step board ⟨vols, some session⟩ .reset ⟨vols, some (session.start .shell Wlan.reset)⟩
  | jobStep (vols : Volumes) (root : Option AreaName) (before after : List Job) (job : Job) :
    Step board ⟨vols, some ⟨root, before ++ job :: after⟩⟩ (.jobStep before.length)
      ⟨applyRoot root vols job.next, some ⟨root, before ++ jobOf job.task job.rest ++ after⟩⟩
  | powerOff (vols : Volumes) (session : Session) :
    Step board ⟨vols, some session⟩ .powerOff ⟨vols, none⟩

theorem Step.of_step {board : Board} {s s' : Device} {a : Action} (h : step board s a = some s') :
    Step board s a s' := by
  obtain ⟨vols, session⟩ := s
  cases session with
  | none =>
    cases a with
    | boot env =>
      obtain rfl := Option.some.inj h
      exact .boot vols env
    | callback | reset | jobStep | powerOff => cases h
  | some session =>
    cases a with
    | boot env => cases h
    | callback opens ssid key connected =>
      obtain rfl := Option.some.inj h
      exact .callback vols session opens ssid key connected
    | reset =>
      obtain rfl := Option.some.inj h
      exact .reset vols session
    | jobStep i =>
      obtain ⟨root, jobs⟩ := session
      simp only [step] at h
      split at h
      · cases h
      · rename_i job hjob
        obtain rfl := Option.some.inj h
        obtain ⟨hi, rfl⟩ := List.getElem?_eq_some_iff.mp hjob
        -- the jobs before and after the one that goes on
        have hjobs : jobs = jobs.take i ++ jobs[i] :: jobs.drop (i + 1) := by
          rw [List.getElem_cons_drop, List.take_append_drop]
        have hlen : (jobs.take i).length = i := List.length_take_of_le hi.le
        have hstep : Step board _ _ _ := .jobStep vols root (jobs.take i) (jobs.drop (i + 1)) jobs[i]
        rwa [← hjobs, hlen] at hstep
    | powerOff =>
      obtain rfl := Option.some.inj h
      exact .powerOff vols session

/-! ## What `main` does -/

/-- What the file system calls document: only a device with a file system can be
    mounted, and a format leaves the device as it was, broken, or empty. -/
structure Dfs.Documented (dfs : Dfs) : Prop where
  mount : ∀ devices n vols name, dfs.mount devices n vols name = true → (vols name).isSome
  mkfs : ∀ devices vols name, dfs.mkfs devices vols name = vols ∨
    ∃ fs, (fs = none ∨ fs = some noFiles) ∧
      dfs.mkfs devices vols name = Function.update vols name fs

section

variable {board : Board} {env : Env} {dfs : Dfs}

theorem mountUser_vols (hdfs : dfs.Documented) (vols : Volumes) (name : AreaName) :
    (mountUser board dfs vols name).vols = vols ∨
      ∃ fs, (fs = none ∨ fs = some noFiles) ∧
        (mountUser board dfs vols name).vols = Function.update vols name fs := by
  unfold mountUser
  split_ifs with hmount
  · exact .inl rfl
  · exact hdfs.mkfs (devices board) vols name

/-- What is mounted has a file system. -/
theorem mountUser_root (hdfs : dfs.Documented) {vols : Volumes} {name root : AreaName}
    (h : (mountUser board dfs vols name).root = some root) :
    root = name ∧ ((mountUser board dfs vols name).vols name).isSome := by
  unfold mountUser at *
  split_ifs at * with hmount
  · exact ⟨(Option.some.inj h).symm, hdfs.mount _ _ vols name hmount⟩
  · dsimp only at *
    split_ifs at h with hagain
    exact ⟨(Option.some.inj h).symm, hdfs.mount _ _ _ name hagain⟩

/-- A format is all that start-up changes, and only on the device to mount. -/
theorem main_vols (board : Board) (hdfs : env.dfs.Documented) (vols : Volumes) :
    (main board env vols).vols = vols ∨
      ∃ fs, (fs = none ∨ fs = some noFiles) ∧
        (main board env vols).vols = Function.update vols (rootDevice board) fs := by
  show (mountRoot board env vols).vols = vols ∨ ∃ fs, _ ∧ (mountRoot board env vols).vols = _
  unfold mountRoot
  split_ifs with hinit
  · exact mountUser_vols hdfs vols (rootDevice board)
  · exact .inl rfl

/-- Nothing else is mounted. -/
theorem main_root (hdfs : env.dfs.Documented) {vols : Volumes} {root : AreaName}
    (h : (main board env vols).root = some root) :
    root = rootDevice board ∧ ((main board env vols).vols root).isSome := by
  show root = rootDevice board ∧ ((mountRoot board env vols).vols root).isSome
  replace h : (mountRoot board env vols).root = some root := h
  unfold mountRoot at *
  split_ifs at * with hinit
  obtain ⟨hroot, hsome⟩ := mountUser_root hdfs h
  rw [hroot]
  exact ⟨rfl, hsome⟩

/-- Start-up reads the files of the device to mount, or none. -/
theorem files_mountRoot (board : Board) (hdfs : env.dfs.Documented) (vols : Volumes) :
    (mountRoot board env vols).files = noFiles ∨
      (main board env vols).vols (rootDevice board) = some (mountRoot board env vols).files := by
  unfold Mounted.files
  cases hroot : (mountRoot board env vols).root with
  | none => exact .inl rfl
  | some root =>
    obtain ⟨rfl, hsome⟩ := main_root hdfs hroot
    obtain ⟨files, hfiles⟩ := Option.isSome_iff_exists.mp hsome
    have hvols : (mountRoot board env vols).vols (rootDevice board) = some files := hfiles
    right
    rw [Option.bind_some, hvols]
    exact hfiles

/-- Formats belong to mounting. -/
theorem mem_calls_dfsMkfs (vols : Volumes) (name : AreaName) :
    .dfsMkfs name ∈ (main board env vols).calls ↔
      .dfsMkfs name ∈ (mountRoot board env vols).calls := by
  have hconnect (connect : Option Connect) :
      .dfsMkfs name ∉ (connect.map Call.rtWlanConnect).toList := by cases connect <;> simp
  have honeshot (connected : Bool) :
      .dfsMkfs name ∉ (if connected then [] else oneshotCalls) := by
    cases connected <;> simp [oneshotCalls]
  unfold main
  dsimp only
  rw [List.mem_append, List.mem_append, List.mem_append]
  simp only [hconnect, honeshot, or_false, List.mem_singleton, reduceCtorEq]

end

/-! ## When nothing fails -/

/-- On a registered device, what is there can be mounted, and formats succeed. -/
structure Dfs.Works (dfs : Dfs) : Prop where
  mount : ∀ devices n vols name, devices name = true →
    dfs.mount devices n vols name = (vols name).isSome
  mkfs : ∀ devices vols name, devices name = true →
    dfs.mkfs devices vols name = Function.update vols name (some noFiles)

/-- Devices register, and the file system calls work on them. -/
structure Env.Works (env : Env) : Prop where
  registers : ∀ name, env.registers name = true
  dfs : env.dfs.Works

/-- The device to mount has an area. -/
def HasRoot (board : Board) : Prop :=
  (board.area (rootDevice board)).start ≠ 0 ∧ (board.area (rootDevice board)).len ≠ 0

instance (board : Board) : Decidable (HasRoot board) := inferInstanceAs (Decidable (_ ∧ _))

/-- **Start-up when nothing fails**: the device is formatted exactly when it has
    no file system, and its file system is mounted. -/
theorem main_works {board : Board} {env : Env} (hroot : HasRoot board) (henv : env.Works)
    (vols : Volumes) :
    (main board env vols).root = some (rootDevice board) ∧
      (main board env vols).vols = Function.update vols (rootDevice board)
        (some ((vols (rootDevice board)).getD noFiles)) ∧
      (.dfsMkfs (rootDevice board) ∈ (main board env vols).calls ↔
        vols (rootDevice board) = none) := by
  obtain ⟨hreg, hmount, hmkfs⟩ := henv
  set name := rootDevice board with hname
  obtain ⟨hinit, hmem⟩ : (flashdevInit (env.registered board)).1 = rtEok ∧
      (name, areaDevice (env.registered board) (board.area name)) ∈
        (flashdevInit (env.registered board)).2 := mem_flashdevInit_of_registers hreg hroot
  have hdevice : devices (env.registered board) name = true := isSome_findDevice hmem
  have hmounted : mountRoot board env vols =
      if (vols name).isSome then ⟨vols, some name, [.dfsMount name]⟩
      else ⟨Function.update vols name (some noFiles), some name,
        [.dfsMount name, .dfsMkfs name, .dfsMount name]⟩ := by
    rw [mountRoot, if_pos hinit, mountUser, hmount _ _ _ _ hdevice, hmkfs _ _ _ hdevice]
    dsimp only
    rw [hmount _ _ _ _ hdevice, Function.update_self]
    rfl
  rw [mem_calls_dfsMkfs]
  show (mountRoot board env vols).root = _ ∧ (mountRoot board env vols).vols = _ ∧ _
  rw [hmounted]
  cases hvol : vols name with
  | none => exact ⟨rfl, rfl, iff_of_true (by simp) rfl⟩
  | some files =>
    refine ⟨rfl, ?_, iff_of_false (by simp) (by simp)⟩
    rw [Option.getD_some, ← hvol, Function.update_eq_self, hvol]
    rfl

end W600Demo.Boot
