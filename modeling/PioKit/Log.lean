/-!
# Reports

What a computation tells while it runs. A report has a level, the stage of the work that it comes from
and a text. A `Logged` computation is a result with the reports that were made on the way, in order.
One that may fail is an `ExceptT ε Logged`: it keeps the reports that were made before the failure.
-/

namespace PioKit

/-- How important a report is, the most important first. -/
inductive Level where
  /-- Something failed. -/
  | error
  /-- Something looks wrong. -/
  | warn
  /-- A step of the run. -/
  | info
  /-- What a step computed. -/
  | debug
  /-- Details of a computation. -/
  | trace
  deriving DecidableEq, Repr

/-- The position of a level, 1 for the most important. -/
def Level.rank : Level → Nat
  | .error => 1
  | .warn => 2
  | .info => 3
  | .debug => 4
  | .trace => 5

/-- The name of a level in capitals. -/
def Level.name : Level → String
  | .error => "ERROR"
  | .warn => "WARN"
  | .info => "INFO"
  | .debug => "DEBUG"
  | .trace => "TRACE"

/-- The part of an assembly that a report comes from. -/
inductive Stage where
  /-- Reading the lines. -/
  | reading
  /-- Collecting the program. -/
  | collecting
  /-- Encoding the instructions. -/
  | encoding
  deriving DecidableEq, Repr

/-- What is told at one point of an assembly. -/
structure Report where
  /-- How important it is. -/
  level : Level
  /-- Where it comes from. -/
  stage : Stage
  /-- Its text. -/
  message : String
  deriving DecidableEq, Repr

/-- A text filled up with blanks at its end to `width` characters. -/
def padRight (width : Nat) (text : String) : String :=
  text ++ String.ofList (List.replicate (width - text.length) ' ')

/-- A result, and the reports on the way to it. -/
@[ext] structure Logged (α : Type) where
  /-- The reports in the order in which they were made. -/
  reports : List Report
  /-- What was computed. -/
  result : α
  deriving Repr

namespace Logged

/-- Makes one report. -/
def report (level : Level) (stage : Stage) (message : String) : Logged Unit where
  reports := [{ level, stage, message }]
  result := ()

instance : Monad Logged where
  pure a := { reports := [], result := a }
  bind x f := { reports := x.reports ++ (f x.result).reports, result := (f x.result).result }

variable {α β ε : Type}

@[simp] theorem reports_pure (a : α) : (pure a : Logged α).reports = [] := rfl

@[simp] theorem reports_bind (x : Logged α) (f : α → Logged β) :
    (x >>= f).reports = x.reports ++ (f x.result).reports := rfl

@[simp] theorem result_bind (x : Logged α) (f : α → Logged β) :
    (x >>= f).result = (f x.result).result := rfl

@[simp] theorem reports_map (f : α → β) (x : Logged α) : (f <$> x).reports = x.reports :=
  List.append_nil x.reports

@[simp] theorem result_map (f : α → β) (x : Logged α) : (f <$> x).result = f x.result := rfl

instance : LawfulMonad Logged := .mk' Logged
  (fun x => Logged.ext (List.append_nil x.reports) rfl)
  (fun _ _ => rfl)
  (fun x f g => Logged.ext (List.append_assoc x.reports (f x.result).reports _) rfl)

/-! ## Going through a list -/

theorem result_filterMapM (f : α → Logged (Option β)) (l : List α) :
    (l.filterMapM f).result = l.filterMap fun a => (f a).result := by
  induction l with
  | nil => rfl
  | cons a l ih =>
    rw [List.filterMapM_cons, List.filterMap_cons, result_bind]
    cases (f a).result with
    | none => exact ih
    | some b => exact congrArg (b :: ·) ih

theorem reports_filterMapM (f : α → Logged (Option β)) (l : List α) :
    (l.filterMapM f).reports = l.flatMap fun a => (f a).reports := by
  induction l with
  | nil => rfl
  | cons a l ih =>
    rw [List.filterMapM_cons, List.flatMap_cons, reports_bind]
    cases (f a).result with
    | none => rw [ih]
    | some b => rw [reports_bind, reports_pure, List.append_nil, ih]

theorem reports_forM_report (level : Level) (stage : Stage) (messages : List String) :
    (messages.forM (report level stage)).reports =
      messages.map fun message => { level, stage, message } := by
  induction messages with
  | nil => rfl
  | cons message messages ih => exact congrArg (_ :: ·) ih

/-! ## Computations that may fail -/

theorem run_liftM_bind (x : Logged α) (f : α → ExceptT ε Logged β) :
    (liftM x >>= f).run = x >>= fun a => (f a).run :=
  Logged.ext (congrArg (· ++ (f x.result).run.reports) (List.append_nil x.reports)) rfl

theorem run_liftM_ok_bind (a : α) (f : α → ExceptT ε Logged β) :
    ((liftM (.ok a : Except ε α) : ExceptT ε Logged α) >>= f).run = (f a).run := rfl

/-- After a failure nothing is computed or reported. -/
theorem run_liftM_error_bind (e : ε) (f : α → ExceptT ε Logged β) :
    ((liftM (.error e : Except ε α) : ExceptT ε Logged α) >>= f).run = pure (.error e) := rfl

theorem result_run_bind (x : ExceptT ε Logged α) (f : α → ExceptT ε Logged β) :
    (x >>= f).run.result = x.run.result >>= fun a => (f a).run.result := by
  rw [ExceptT.run_bind, result_bind]
  cases x.run.result <;> rfl

theorem result_run_mapM (f : α → ExceptT ε Logged β) (l : List α) :
    (l.mapM f).run.result = l.mapM fun a => (f a).run.result := by
  induction l with
  | nil => rfl
  | cons a l ih =>
    rw [List.mapM_cons, List.mapM_cons, result_run_bind]
    congr 1
    funext b
    rw [result_run_bind, ih]
    rfl

end Logged

end PioKit
