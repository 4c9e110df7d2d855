import Rehearsal.Proofs.Job.Deeds
import Rehearsal.Proofs.Play.Ordinary

/-! `Maintains Fit Out` says of a play that sessions which fit still do when it has come to its end,
and what a fault leaves behind. A play of which all deeds keep what fits maintains it. -/

namespace Rehearsal

def Left {α : Type} (Fit : Session → Prop) (Out : Fault → Session → Prop) :
    Except Fault α → Session → Prop
  | .ok _, t => Fit t
  | .error fault, t => Out fault t

structure Maintains {α : Type} (Fit : Session → Prop) (Out : Fault → Session → Prop)
    (play : Play α) : Prop where
  outcome : ∀ s, Fit s → Left Fit Out (play.perform s).1 (play.perform s).2

open Play

namespace Maintains

variable {α β : Type} {Fit : Session → Prop} {Out : Fault → Session → Prop}

theorem of_left {play : Play α} (left : ∀ {s t : Session} {result : Except Fault α}, Fit s →
    play.perform s = (result, t) → Left Fit Out result t) : Maintains Fit Out play :=
  ⟨fun _ fit => left fit rfl⟩

theorem left {play : Play α} {s t : Session} {result : Except Fault α}
    (maintains : Maintains Fit Out play) (fit : Fit s)
    (performed : play.perform s = (result, t)) : Left Fit Out result t := by
  have left := maintains.outcome s fit
  rwa [performed] at left

theorem kept {play : Play α} {s t : Session} {result : Except Fault α}
    (maintains : Maintains Fit (fun _ => Fit) play) (fit : Fit s)
    (performed : play.perform s = (result, t)) : Fit t := by
  have left := maintains.left fit performed
  cases result <;> exact left

theorem pure (a : α) : Maintains Fit Out (Pure.pure a : Play α) := ⟨fun _ fit => fit⟩

theorem throw {fault : Fault} (enough : ∀ s, Fit s → Out fault s) :
    Maintains Fit Out (MonadExcept.throw fault : Play α) := ⟨enough⟩

theorem bind {play : Play α} {next : α → Play β} (first : Maintains Fit Out play)
    (rest : ∀ a, Maintains Fit Out (next a)) : Maintains Fit Out (play >>= next) := by
  constructor
  intro s fit
  cases performed : play.perform s with
  | mk result t =>
    have left := first.left fit performed
    rw [perform_bind, performed]
    cases result with
    | error fault => exact left
    | ok a => exact (rest a).outcome t left

theorem get {next : Session → Play α} (rest : ∀ s, Fit s → Maintains Fit Out (next s)) :
    Maintains Fit Out (MonadState.get >>= next) := by
  constructor
  intro s fit
  rw [perform_get_bind]
  exact (rest s fit).outcome s fit

theorem of_does {Kind : Deed → Prop} {Allowed : Fault → Prop} {play : Play α}
    (does : Does Kind play) (ends : Yields (fun _ => True) Allowed (fun _ => True) play)
    (deed : ∀ {d s}, Kind d → Fit s → Fit (d.after s))
    (fault : ∀ {fault s}, Allowed fault → Fit s → Out fault s) : Maintains Fit Out play := by
  constructor
  intro s fit
  have ends := (ends.outcome s trivial).2
  obtain ⟨deeds, kind, same⟩ := does.deeds s
  have kept : Fit (Deed.all deeds s) := Deed.all_keep deed kind fit
  rw [← same] at kept
  cases outcome : (play.perform s).1 with
  | ok a => exact kept
  | error other =>
    rw [outcome] at ends
    exact fault ends kept

theorem tryCatch {Between : Fault → Session → Prop} {play : Play α} {handle : Fault → Play α}
    (first : Maintains Fit Between play)
    (rest : ∀ fault s, Between fault s →
      Left Fit Out ((handle fault).perform s).1 ((handle fault).perform s).2) :
    Maintains Fit Out (MonadExcept.tryCatch play handle) := by
  constructor
  intro s fit
  cases performed : play.perform s with
  | mk result t =>
    have left := first.left fit performed
    rw [perform_tryCatch, performed]
    cases result with
    | ok a => exact left
    | error fault => exact rest fault t left

end Maintains

/-- That deeds of a kind, among them all that find a value, keep what fits, and that it is enough
where an ordinary fault ends a play. -/
structure Bears (Kind : Deed → Prop) (Fit : Session → Prop) (Out : Fault → Session → Prop) :
    Prop where
  inquires : ∀ {d : Deed}, d.Inquires → Kind d
  deed : ∀ {d : Deed} {s : Session}, Kind d → Fit s → Fit (d.after s)
  fault : ∀ {fault : Fault} {s : Session}, fault.Ordinary → Fit s → Out fault s

namespace Bears

variable {α β : Type} {Kind Narrower : Deed → Prop} {Fit : Session → Prop}
  {Out : Fault → Session → Prop}

theorem mono (bears : Bears Kind Fit Out) (inquires : ∀ {d : Deed}, d.Inquires → Narrower d)
    (narrower : ∀ {d : Deed}, Narrower d → Kind d) : Bears Narrower Fit Out :=
  ⟨inquires, fun own => bears.deed (narrower own), bears.fault⟩

theorem of_does (bears : Bears Kind Fit Out) {play : Play α} (does : Does Kind play)
    (ordinary : Ordinary play) : Maintains Fit Out play :=
  .of_does does ordinary bears.deed bears.fault

theorem of_deed (bears : Bears Kind Fit Out) {play : Play α} (d : Deed)
    (same : ∀ s, (play.perform s).2 = d.after s) (kind : Kind d) (ordinary : Ordinary play) :
    Maintains Fit Out play := bears.of_does (.of_deed d same kind) ordinary

theorem of_inquires (bears : Bears Kind Fit Out) {play : Play α} (does : Does Deed.Inquires play)
    (ordinary : Ordinary play) : Maintains Fit Out play :=
  bears.of_does (does.mono fun _ => bears.inquires) ordinary

theorem log (bears : Bears Kind Fit Out) {level : Level} {message : String}
    (inquires : Deed.Inquires (.log level message)) : Maintains Fit Out (log level message) :=
  bears.of_inquires (.log inquires) (.log ..)

theorem info (bears : Bears Kind Fit Out) (message : String) : Maintains Fit Out (info message) :=
  bears.log (Deed.inquires_info message)

theorem error (bears : Bears Kind Fit Out) (message : String) : Maintains Fit Out (error message) :=
  bears.log (Deed.inquires_error message)

theorem adopt (bears : Bears Kind Fit Out) {result : Except Fault α} (settles : Settles result) :
    Maintains Fit Out (adopt result) :=
  bears.of_inquires (.adopt _) (.adopt settles)

theorem fit (bears : Bears Kind Fit Out) (result : Except Unfit α) :
    Maintains Fit Out (fit result) := bears.adopt (.orUnfit result)

theorem bind_adopt (bears : Bears Kind Fit Out) {result : Except Fault α} {next : α → Play β}
    (settles : Settles result) (rest : ∀ a, result = .ok a → Maintains Fit Out (next a)) :
    Maintains Fit Out (Play.adopt result >>= next) := by
  cases result with
  | error fault => exact ⟨fun s fit => bears.fault settles fit⟩
  | ok a => exact ⟨fun s fit => (rest a rfl).outcome s fit⟩

theorem bind_fit (bears : Bears Kind Fit Out) {told : Except Unfit α} {next : α → Play β}
    (rest : ∀ a, told = .ok a → Maintains Fit Out (next a)) :
    Maintains Fit Out (Play.fit told >>= next) := by
  refine bears.bind_adopt (.orUnfit told) fun a same => rest a ?_
  cases told with
  | error u => cases same
  | ok b => exact congrArg Except.ok (Except.ok.inj same)

end Bears

end Rehearsal
