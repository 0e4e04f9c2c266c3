import DebugWire.Proofs.Project.Stored
import DebugWire.Tool.Basic

set_option relaxedAutoImplicit false
set_option autoImplicit false

/-!
# Projects that are set up

The command that sets up a project writes what it is asked for, right or wrong. Whether the file can
be loaded again depends on two of the values alone: the command of the device must not be all
blanks, and the timeout must be positive and have a finite value. If so, every later command finds
the configuration as it was asked for. If not, none runs any more in the project, the one that would
write the file anew among them, since all of them load it first.

## Main definitions

* `DebugWire.Tool.Init.asked` — the configuration that words and a timeout ask for.
* `DebugWire.Tool.Init.Loadable` — the words and timeouts whose file can be loaded.

## Main results

* `DebugWire.Tool.Init.serves_or_locks_out` — what later commands find.
-/

namespace DebugWire.Tool.Init

/-! ## What is asked for -/

/-- The device that words ask for: the first is the command, the others its arguments. Without a
command there is no device. -/
def deviceOf : List String → Option DeviceConfig
  | [] => none
  | command :: args => if command.isEmpty then none else some ⟨some command, some args, none⟩

/-- The listing that is found in a directory. -/
def listingIn (files : Files) (dir : String) : Option String :=
  match files.list dir with
  | .ok names => onlyListing? names
  | .error _ => none

/-- What is said of a directory whose names cannot be had. -/
def scanProblems (files : Files) (dir : String) : List String :=
  match files.list dir with
  | .ok _ => []
  | .error problem => ["Could not scan " ++ dir ++ ": " ++ problem.message]

/-- The configuration that words and a timeout ask for. -/
def asked (words : List String) (timeout : Option Number) (listing : Option String) : Config :=
  ⟨deviceOf words, listing, timeout.map fun x => ⟨some x⟩⟩

/-- The words and timeouts whose file can be loaded: the command, if there is one, is not all
blanks, and the timeout, if there is one, is positive and has a finite value. -/
def Loadable (words : List String) (timeout : Option Number) : Prop :=
  (∀ command, words.head? = some command → command ≠ "" → ∃ c ∈ command.toList,
    Text.isBlank c = false) ∧
    ∀ x, timeout = some x → x.IsFinite ∧ 0 < x.value

/-- What is written is the configuration that is asked for.

**Proof sketch.** A device is written if there is a first word that is not empty, and the words
behind it are its arguments. -/
lemma configOf_eq_toJson (words : List String) (timeout : Option Number) (listing : Option String) :
    configOf (device? (words.map .string)) (timeout.elim .null .number) listing =
      (asked words timeout listing).toJson := by
  have hdevice :
      Config.member "device" (fun d => Json.object [("command", d.1), ("args", .array d.2)])
      (device? (words.map .string)) =
        Config.member "device" Config.deviceJson (deviceOf words) := by
    cases words with
    | nil => rfl
    | cons command args =>
      rw [List.map_cons, device?, deviceOf, Json.isTrue]
      cases command.isEmpty <;> rfl
  unfold configOf
  rw [hdevice]
  cases timeout <;> rfl

/-- A configuration that is asked for is sound if its values are.

**Proof sketch.** The only device that can be asked for has the first word as its command, if that
is not empty, and the only timeout is the one that is given. -/
lemma sound_asked_iff {words : List String} {timeout : Option Number} {listing : Option String} :
    (asked words timeout listing).Sound ↔ Loadable words timeout := by
  have hcommand :
      (∀ d, deviceOf words = some d → ∀ s, d.command = some s →
        ∃ c ∈ s.toList, Text.isBlank c = false) ↔
      ∀ command, words.head? = some command → command ≠ "" → ∃ c ∈ command.toList,
        Text.isBlank c = false := by
    cases words with
    | nil => exact iff_of_true (by rintro _ ⟨⟩) (by rintro _ ⟨⟩)
    | cons command args =>
      have hempty : command.isEmpty = true ↔ command = "" := String.isEmpty_iff
      rw [deviceOf]
      by_cases hc : command = ""
      · rw [if_pos (hempty.2 hc)]
        exact iff_of_true (by rintro _ ⟨⟩) fun c hhead hne =>
          absurd ((Option.some.inj hhead).symm.trans hc) hne
      · rw [if_neg (mt hempty.1 hc)]
        constructor
        · rintro h _ ⟨⟩ -
          exact h _ rfl _ rfl
        · rintro h _ ⟨⟩ _ ⟨⟩
          exact h _ rfl hc
  have htimeout :
      (∀ k, (timeout.map fun x => (⟨some x⟩ : ClientConfig)) = some k → ∀ x, k.timeout = some x →
      x.IsFinite ∧ 0 < x.value) ↔ ∀ x, timeout = some x → x.IsFinite ∧ 0 < x.value := by
    cases timeout with
    | none => exact iff_of_true (by rintro _ ⟨⟩) (by rintro _ ⟨⟩)
    | some x =>
      constructor
      · rintro h _ ⟨⟩
        exact h _ rfl _ rfl
      · rintro h _ ⟨⟩ _ ⟨⟩
        exact h _ rfl
  exact ⟨fun h => ⟨hcommand.1 h.command, htimeout.1 h.timeout⟩,
    fun h => ⟨hcommand.2 h.1, htimeout.2 h.2⟩⟩

/-! ## What is written -/

section Run

variable {files : Files} {dir : String} {o : Options} {words : List String}
    {timeout : Option Number}

/-- What the command does, with the listing as it is found. -/
lemma run_eq : run files dir o =
    if files.isPresent (Config.place dir) && !o.flag "force" then
      ⟨[], [Config.filename ++ " already exists. Use --force to overwrite."], files, .ok 1⟩
    else
      match itemsOf o "device" with
      | .error problem => .failed files problem
      | .ok items =>
        match Config.write files dir
          (configOf (device? items) (o.get "timeout") (listingIn files dir)) with
        | .error problem => ⟨[], scanProblems files dir, files, .error (.file problem)⟩
        | .ok files' =>
          ⟨summary (Config.place dir) (device? items) (listingIn files dir), scanProblems files dir,
            files', .ok 0⟩ := by
  unfold run listingIn scanProblems
  cases files.list dir <;> rfl

/-- The command that ends with code zero has written the configuration that it was asked for.

**Proof sketch.** By the branches of the command: it ends with code zero only where the
configuration is written without a problem, and that is the one of the words, the timeout and the
listing. -/
lemma write_of_run (hwords : itemsOf o "device" = .ok (words.map .string))
    (htimeout : o.get "timeout" = timeout.elim .null .number)
    (hrun : (run files dir o).result = .ok 0) :
    Config.write files dir (asked words timeout (listingIn files dir)).toJson =
      .ok (run files dir o).files := by
  rw [run_eq] at hrun ⊢
  split_ifs at hrun ⊢
  · cases hrun
  · rw [hwords] at hrun ⊢
    dsimp only at hrun ⊢
    rw [htimeout, configOf_eq_toJson] at hrun ⊢
    cases hw : Config.write files dir (asked words timeout (listingIn files dir)).toJson with
    | ok files' => rfl
    | error problem =>
      rw [hw] at hrun
      cases hrun

/-- A timeout that is asked for is the number that was given. -/
lemma isBinary64_asked (words : List String) (hbinary : ∀ x, timeout = some x → x.IsBinary64)
    (listing : Option String) :
    ∀ k, (asked words timeout listing).client = some k → ∀ x, k.timeout = some x →
      x.IsBinary64 := by
  rintro _ hk x hx
  obtain ⟨y, hy, rfl⟩ := Option.map_eq_some_iff.1 hk
  obtain rfl := Option.some.inj hx
  exact hbinary y hy

/-- **What later commands find** in a project that was set up. They serve if the values that were
asked for can be loaded, and are locked out otherwise.

**Proof sketch.** The command that ends with code zero has written the configuration that it was
asked for, listing included. Whether that is sound depends on the words and the timeout. A later
command loads it before it does anything else, and ends there if the configuration is refused. -/
theorem serves_or_locks_out (hwords : itemsOf o "device" = .ok (words.map .string))
    (htimeout : o.get "timeout" = timeout.elim .null .number)
    (hbinary : ∀ x, timeout = some x → x.IsBinary64) (hrun : (run files dir o).result = .ok 0) :
    (Loadable words timeout →
      Config.load (run files dir o).files dir =
        (.ok (asked words timeout (listingIn files dir)), []) ∧
      ∀ (later : Options) (work : String → Config → Work), directory (run files dir o).files later =
        .ok dir → inProject (run files dir o).files later work =
          (work dir (asked words timeout (listingIn files dir))).report []) ∧
    (¬ Loadable words timeout → ∃ flaw,
      Config.load (run files dir o).files dir = (.error (.flawed (Config.place dir) flaw), []) ∧
      ∀ (later : Options) (work : String → Config → Work), directory (run files dir o).files later =
        .ok dir → inProject (run files dir o).files later work =
          .refused (run files dir o).files
            (Config.Problem.flawed (Config.place dir) flaw).message) := by
  have hwrite := write_of_run hwords htimeout hrun
  have hbinary' := isBinary64_asked words hbinary (listingIn files dir)
  constructor
  · intro hload
    have hfound := Config.load_of_sound hbinary' hwrite (sound_asked_iff.2 hload)
    refine ⟨hfound, fun later work hdir => ?_⟩
    rw [inProject, hdir]
    simp only [hfound]
  · intro hload
    obtain ⟨flaw, hfound⟩ := Config.load_of_not_sound hbinary' hwrite (mt sound_asked_iff.1 hload)
    refine ⟨flaw, hfound, fun later work hdir => ?_⟩
    rw [inProject, hdir]
    simp only [hfound]
    rfl

end Run

/-- A directory with nothing in it but a listing. -/
def project : Files := ⟨[(Path.key "/p/game.debug.json", [])], [Path.key "/p"], "/p"⟩

/-- The command with a device command line and a timeout. -/
def given (words : List String) (timeout : Number) : Options :=
  { Options.start (general "/p" ++ options) with
    values := [("device", .array (words.map .string)), ("timeout", .number timeout)] }

/-- The listing is found, which is the only one in the directory.

**Proof sketch.** The directory has one file, and its name ends as those of listings do. -/
lemma listingIn_project : listingIn project "/p" = some "game.debug.json" := by
  have hnames : (project.entries.map (·.1) ++ project.directories).filterMap (fun p =>
      if (project.place "/p").isPrefixOf p then p[(project.place "/p").length]? else none) =
      ["game.debug.json".toList] := by decide +kernel
  have hlist : project.list "/p" = .ok ["game.debug.json"] := by
    rw [Files.list, if_neg (by decide), if_pos (by decide +kernel), hnames]
    dsimp only
    rw [List.map_cons, List.map_nil, List.mergeSort_singleton]
    rfl
  rw [listingIn, hlist]
  rfl

/-- A tape device with patience for one and a half seconds is found as it was asked for. -/
theorem serves_or_locks_out_of_tape_device :
    (run project "/p" (given ["tape-device", "prog.tape"] 1500)).result = .ok 0 ∧
      Config.load (run project "/p" (given ["tape-device", "prog.tape"] 1500)).files "/p" =
        (.ok ⟨some ⟨some "tape-device", some ["prog.tape"], none⟩, some "game.debug.json",
          some ⟨some 1500⟩⟩, []) := by
  have hwords : itemsOf (given ["tape-device", "prog.tape"] 1500) "device" =
      .ok (["tape-device", "prog.tape"].map .string) := rfl
  have htimeout : (given ["tape-device", "prog.tape"] 1500).get "timeout" =
      (some (1500 : Number)).elim .null .number := rfl
  have hbinary : ∀ x, some (1500 : Number) = some x → x.IsBinary64 := by
    rintro _ ⟨⟩
    exact Number.isBinary64_whole (by decide)
  have hrun : (run project "/p" (given ["tape-device", "prog.tape"] 1500)).result = .ok 0 := rfl
  have hload : Loadable ["tape-device", "prog.tape"] (some 1500) := by
    constructor
    · rintro _ ⟨⟩ -
      exact ⟨'t', by decide, rfl⟩
    · rintro _ ⟨⟩
      refine ⟨trivial, ?_⟩
      show 0 < (Number.whole 1500).value
      rw [Number.value_whole]
      norm_num
  have hfound := ((serves_or_locks_out hwords htimeout hbinary hrun).1 hload).1
  rw [listingIn_project] at hfound
  exact ⟨hrun, hfound⟩

/-- A timeout of zero is written, and then no command runs in the project any more. -/
theorem not_serves_of_zero_timeout :
    (run project "/p" (given ["tape-device"] 0)).result = .ok 0 ∧
      Config.load (run project "/p" (given ["tape-device"] 0)).files "/p" =
        (.error (.flawed "/p/steplink.json" .notTimeout), []) := by
  have hwords : itemsOf (given ["tape-device"] 0) "device" = .ok (["tape-device"].map .string) :=
    rfl
  have htimeout :
      (given ["tape-device"] 0).get "timeout" = (some (0 : Number)).elim .null .number := rfl
  have hbinary : ∀ x, some (0 : Number) = some x → x.IsBinary64 := by
    rintro _ ⟨⟩
    exact Number.isBinary64_whole (by decide)
  have hrun : (run project "/p" (given ["tape-device"] 0)).result = .ok 0 := rfl
  have hwrite := write_of_run hwords htimeout hrun
  have hbinary' := isBinary64_asked ["tape-device"] hbinary (listingIn project "/p")
  refine ⟨hrun, ?_⟩
  rw [Config.load_of_write hbinary' hwrite, listingIn_project]
  rfl

end DebugWire.Tool.Init
