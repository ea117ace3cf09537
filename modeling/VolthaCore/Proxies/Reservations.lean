import VolthaCore.Lib.Runs

/-! The proxies of several cores work on one key-value store (`db/model/proxy.go`). An update,
an addition or a removal reserves a lock for its path, executes on the tree of its core and
releases the lock. The lock of a controlled path is named by the first two segments of the
path, so that everything below an entry shares its lock.

A run is an interleaving of the reservations and releases of any number of calls. -/

namespace VolthaCore.Proxies

def splitPath (path : String) : List String := (path.toList.splitOn '/').map String.ofList

/-- `parseForControlledPath`: the lock of a path and whether access to it is controlled. -/
def parseForControlledPath (path : String) : String × Bool :=
  if "/devices".toList <+: path.toList ∨ "/logical_devices".toList <+: path.toList ∨
      "/adapters".toList <+: path.toList then
    match splitPath path with
    | _ :: first :: second :: _ => (first ++ "/" ++ second, true)
    | _ => ("", false)
  else
    ("", false)

section ControlledPaths

inductive Controlled where
  | devices | logicalDevices | adapters
  deriving DecidableEq

def Controlled.name : Controlled → String
  | .devices => "devices"
  | .logicalDevices => "logical_devices"
  | .adapters => "adapters"

/-- The path of an entry: `/devices/<id>`, `/logical_devices/<id>` or `/adapters/<id>`. -/
structure EntryPath where
  kind : Controlled
  id : String
  id_whole : '/' ∉ id.toList

def EntryPath.text (p : EntryPath) : String := "/" ++ p.kind.name ++ "/" ++ p.id

/-- The entry itself and anything below it. -/
def EntryPath.Covers (p : EntryPath) (path : String) : Prop :=
  path = p.text ∨ ∃ rest, path = p.text ++ "/" ++ rest

variable {s : List Char} {p : EntryPath} {path : String}

theorem splitOn_whole (h : '/' ∉ s) : s.splitOn '/' = [s] :=
  List.splitOnP_eq_singleton fun _ hc => beq_false_of_ne (ne_of_mem_of_not_mem hc h)

theorem splitOn_segment (h : '/' ∉ s) (rest : List Char) :
    (s ++ '/' :: rest).splitOn '/' = s :: rest.splitOn '/' :=
  List.splitOnP_append_cons_of_forall_mem
    (fun c hc => beq_false_of_ne (ne_of_mem_of_not_mem hc h)) '/' (by simp) rest

theorem Controlled.name_whole (kind : Controlled) : '/' ∉ kind.name.toList := by
  cases kind <;> decide

theorem EntryPath.toList_text (p : EntryPath) :
    p.text.toList = '/' :: (p.kind.name.toList ++ '/' :: p.id.toList) := by
  simp [EntryPath.text]

theorem EntryPath.splitPath_of_covers (h : p.Covers path) :
    ∃ rest, splitPath path = "" :: p.kind.name :: p.id :: rest := by
  obtain rfl | ⟨rest, rfl⟩ := h
  · refine ⟨[], ?_⟩
    rw [splitPath, p.toList_text, ← List.nil_append ('/' :: _), splitOn_segment (by simp),
      splitOn_segment p.kind.name_whole, splitOn_whole p.id_whole]
    simp
  · refine ⟨splitPath rest, ?_⟩
    have hchars : (p.text ++ "/" ++ rest).toList =
        [] ++ '/' :: (p.kind.name.toList ++ '/' :: (p.id.toList ++ '/' :: rest.toList)) := by
      simp [p.toList_text]
    rw [splitPath, hchars, splitOn_segment (by simp), splitOn_segment p.kind.name_whole,
      splitOn_segment p.id_whole]
    simp [splitPath]

theorem EntryPath.controlled_of_covers (h : p.Covers path) :
    "/devices".toList <+: path.toList ∨ "/logical_devices".toList <+: path.toList ∨
      "/adapters".toList <+: path.toList := by
  have hbelow : p.text.toList <+: path.toList := by
    obtain rfl | ⟨rest, rfl⟩ := h
    · exact List.prefix_rfl
    · exact ⟨'/' :: rest.toList, by simp⟩
  have hkind : '/' :: p.kind.name.toList <+: path.toList :=
    List.IsPrefix.trans ⟨'/' :: p.id.toList, by simp [p.toList_text]⟩ hbelow
  cases hk : p.kind with
  | devices => exact .inl (by simpa [hk, Controlled.name] using hkind)
  | logicalDevices => exact .inr (.inl (by simpa [hk, Controlled.name] using hkind))
  | adapters => exact .inr (.inr (by simpa [hk, Controlled.name] using hkind))

/-- All paths at and below an entry have one lock. -/
theorem EntryPath.parseForControlledPath_of_covers (h : p.Covers path) :
    parseForControlledPath path = (p.kind.name ++ "/" ++ p.id, true) := by
  obtain ⟨rest, hsplit⟩ := p.splitPath_of_covers h
  rw [parseForControlledPath, if_pos (p.controlled_of_covers h), hsplit]

end ControlledPaths

section Calls

variable {γ : Type}

inductive Operation where
  | update
  | addWithID (id : String)
  | add
  | remove

/-- A call on a proxy: `fullPath` is the path of the proxy, `path` the one of the call. -/
structure Request (γ : Type) where
  core : γ
  operation : Operation
  fullPath : String
  path : String

def Request.effectivePath (r : Request γ) : String :=
  if r.path = "/" then
    r.fullPath
  else
    match r.operation with
    | .addWithID id => r.fullPath ++ r.path ++ "/" ++ id
    | _ => r.fullPath ++ r.path

def Request.lock (r : Request γ) : String := (parseForControlledPath r.effectivePath).1 ++ "_"

inductive Stage where
  | idle | executing | returned
  deriving DecidableEq

/-- `holder` gives the call whose value a reserved key has; it is held by the core of that
call. -/
structure World where
  holder : String → Option ℕ
  stage : ℕ → Stage

def World.initial : World := ⟨fun _ => none, fun _ => .idle⟩

/-- `Reserve`: take a free key, and return the value of its holder in any case. -/
def reserve (holder : String → Option ℕ) (key : String) (i : ℕ) : ℕ × (String → Option ℕ) :=
  match holder key with
  | none => (i, Function.update holder key (some i))
  | some j => (j, holder)

/-- One step of a call. The flags tell whether the key-value store answers. -/
inductive Action where
  | reserve (i : ℕ) (ok : Bool)
  | release (i : ℕ) (ok : Bool)
  deriving DecidableEq

variable (requests : ℕ → Request γ)

/-- Nobody holds the lock of a call when it reserves it. -/
def FindsFree (w : World) : Action → Prop
  | .reserve i _ => w.holder (requests i).lock = none
  | .release _ _ => True

/-- The lock of every executing call has the value of that call. -/
def Reserved (w : World) : Prop :=
  ∀ i, w.stage i = .executing → w.holder (requests i).lock = some i

variable {requests} {w : World} {i : ℕ}

theorem Reserved.unique (h : Reserved requests w) {j : ℕ} (hi : w.stage i = .executing)
    (hj : w.stage j = .executing) (hlock : (requests i).lock = (requests j).lock) : i = j := by
  have hheld := h i hi
  rw [hlock, h j hj, Option.some_inj] at hheld
  exact hheld.symm

/-- A call that takes a free lock does not disturb the calls that hold another one. -/
theorem Reserved.reserve (h : Reserved requests w) (hfree : w.holder (requests i).lock = none) :
    Reserved requests
      ⟨(reserve w.holder (requests i).lock i).2, Function.update w.stage i .executing⟩ := by
  intro j hj
  simp only [Proxies.reserve, hfree]
  by_cases hij : j = i
  · subst hij
    simp
  · have hheld := h j (by simpa [hij] using hj)
    have hne : (requests j).lock ≠ (requests i).lock := by
      intro heq
      rw [heq, hfree] at hheld
      cases hheld
    simpa [hne] using hheld

theorem Reserved.leave (h : Reserved requests w) (i : ℕ) :
    Reserved requests { w with stage := Function.update w.stage i .returned } := by
  intro j hj
  by_cases hij : j = i
  · simp [hij] at hj
  · exact h j (by simpa [hij] using hj)

theorem reserved_initial : Reserved requests World.initial := fun _ hi => by
  simp [World.initial] at hi

variable [DecidableEq γ] (requests)

/-- `ReleaseReservation`: free a key that is held by the core of the caller. -/
def releaseReservation (holder : String → Option ℕ) (key : String) (core : γ) :
    String → Option ℕ :=
  match holder key with
  | some j => if (requests j).core = core then Function.update holder key none else holder
  | none => holder

def step (w : World) : Action → World
  | .reserve i ok =>
    if w.stage i = .idle then
      if "/".toList <+: (requests i).path.toList ∧ ok then
        -- the value that `Reserve` returns is dropped, only an error stops the call
        let (_, holder) := reserve w.holder (requests i).lock i
        ⟨holder, Function.update w.stage i .executing⟩
      else
        { w with stage := Function.update w.stage i .returned }
    else
      w
  | .release i ok =>
    if w.stage i = .executing then
      { holder :=
          if ok then releaseReservation requests w.holder (requests i).lock (requests i).core
          else w.holder
        stage := Function.update w.stage i .returned }
    else
      w

variable {requests}

theorem Reserved.release (h : Reserved requests w) (hi : w.stage i = .executing) :
    Reserved requests
      ⟨releaseReservation requests w.holder (requests i).lock (requests i).core,
        Function.update w.stage i .returned⟩ := by
  intro j hj
  have hij : j ≠ i := by
    rintro rfl
    simp at hj
  have hj : w.stage j = .executing := by simpa [hij] using hj
  have hne : (requests j).lock ≠ (requests i).lock := fun heq => hij (h.unique hj hi heq)
  simpa [releaseReservation, h i hi, hne] using h j hj

theorem Reserved.step (h : Reserved requests w) {a : Action} (ha : FindsFree requests w a) :
    Reserved requests (step requests w a) := by
  cases a with
  | reserve i ok =>
    simp only [Proxies.step]
    split_ifs
    · exact h.reserve ha
    · exact h.leave i
    · exact h
  | release i ok =>
    simp only [Proxies.step]
    split_ifs with hi hok
    · exact h.release hi
    · exact h.leave i
    · exact h

variable (requests)

/-- When every reservation finds its lock free, no two calls at or below one entry execute at
the same time. -/
theorem exclusive_of_findsFree (actions : List Action)
    (h : Runs.Along (step requests) (FindsFree requests) actions World.initial)
    (p : EntryPath) {i j : ℕ} (hij : i ≠ j) (hi : p.Covers (requests i).effectivePath)
    (hj : p.Covers (requests j).effectivePath) :
    ¬ ((Runs.run (step requests) actions World.initial).stage i = .executing ∧
      (Runs.run (step requests) actions World.initial).stage j = .executing) := by
  rintro ⟨hexeci, hexecj⟩
  have hreserved : Reserved requests (Runs.run (step requests) actions World.initial) :=
    Runs.run_invariant (P := Reserved requests) (fun _ _ ha hw => hw.step ha) h reserved_initial
  have hlock : (requests i).lock = (requests j).lock := by
    simp only [Request.lock, p.parseForControlledPath_of_covers hi,
      p.parseForControlledPath_of_covers hj]
  exact hij (hreserved.unique hexeci hexecj hlock)

end Calls

section TwoCores

def deviceOne : EntryPath := ⟨.devices, "1", by decide⟩

/-- Core `true` updates a device while core `false` removes its flows. -/
def twoCores : ℕ → Request Bool
  | 0 => ⟨true, .update, "", "/devices/1"⟩
  | _ => ⟨false, .remove, "", "/devices/1/flows"⟩

theorem deviceOne_covers (i : ℕ) : deviceOne.Covers (twoCores i).effectivePath := by
  cases i with
  | zero => exact .inl (by decide)
  | succ i => exact .inr ⟨"flows", rfl⟩

theorem exclusive_one_after_another :
    Runs.Along (step twoCores) (FindsFree twoCores)
        [.reserve 0 true, .release 0 true, .reserve 1 true] World.initial ∧
      ¬ ((Runs.run (step twoCores) [.reserve 0 true, .release 0 true, .reserve 1 true]
            World.initial).stage 0 = .executing ∧
        (Runs.run (step twoCores) [.reserve 0 true, .release 0 true, .reserve 1 true]
            World.initial).stage 1 = .executing) := by
  have halong : Runs.Along (step twoCores) (FindsFree twoCores)
      [.reserve 0 true, .release 0 true, .reserve 1 true] World.initial :=
    ⟨rfl, trivial, rfl, trivial⟩
  exact ⟨halong, exclusive_of_findsFree twoCores _ halong deviceOne (by decide)
    (deviceOne_covers 0) (deviceOne_covers 1)⟩

/-- The second core is told that the first one holds the lock and executes nevertheless. -/
theorem both_cores_execute :
    deviceOne.Covers (twoCores 0).effectivePath ∧ deviceOne.Covers (twoCores 1).effectivePath ∧
      (Runs.run (step twoCores) [.reserve 0 true, .reserve 1 true] World.initial).stage 0 =
        .executing ∧
      (Runs.run (step twoCores) [.reserve 0 true, .reserve 1 true] World.initial).stage 1 =
        .executing :=
  ⟨deviceOne_covers 0, deviceOne_covers 1, by decide, by decide⟩

end TwoCores

end VolthaCore.Proxies
