import RemoteMount.AttributeCache
import RemoteMount.Request

namespace RemoteMount

inductive Step
  | remote (r : Request)
  | size (s : SessionId)
  | cache (a : CacheAccess)
deriving DecidableEq

abbrev Step.Answer : Step → Type
  | remote r => Except RemoteError r.Reply
  | size _ => UInt64
  | cache a => a.Answer

/-- What a call still has to do, one atomic step after another: requests to the device,
questions for the length of an open file, and accesses to the attribute cache. A call that has
not run to its end is a value, so calls can be interleaved at every step. -/
inductive Program (α : Type)
  | done (a : α)
  | step (s : Step) (next : s.Answer → Program α)

namespace Program

variable {α β γ τ : Type}

def bind : Program α → (α → Program β) → Program β
  | done a, f => f a
  | step s next, f => step s fun x ↦ (next x).bind f

instance : Monad Program where
  pure := done
  bind := bind

theorem bind_assoc (p : Program α) (f : α → Program β) (g : β → Program γ) :
    (p >>= f) >>= g = p >>= fun a ↦ f a >>= g := by
  induction p with
  | done a => rfl
  | step s next ih =>
    change step s _ = step s _
    congr 1
    funext x
    exact ih x

theorem bind_done (p : Program α) : p >>= done = p := by
  induction p with
  | done a => rfl
  | step s next ih =>
    change step s _ = step s _
    congr 1
    funext x
    exact ih x

instance : LawfulMonad Program := LawfulMonad.mk' _ bind_done (fun _ _ ↦ rfl) bind_assoc

def request (r : Request) : Program (Except RemoteError r.Reply) := step (.remote r) done

def askSize (s : SessionId) : Program UInt64 := step (.size s) done

def access (a : CacheAccess) : Program a.Answer := step (.cache a) done

def interpret (handler : (s : Step) → τ → s.Answer × τ) : Program α → τ → α × τ
  | done a, t => (a, t)
  | step s next, t =>
    let (x, t') := handler s t
    (next x).interpret handler t'

theorem interpret_bind (handler : (s : Step) → τ → s.Answer × τ) (p : Program α) (f : α → Program β)
    (t : τ) : (p >>= f).interpret handler t =
      (f (p.interpret handler t).1).interpret handler (p.interpret handler t).2 := by
  induction p generalizing t with
  | done a => rfl
  | step s next ih => exact ih _ _

end Program

structure CachedDevice (σ : Type) where
  device : σ
  cache : AttributeCache

def Step.run {σ : Type} [RemoteDevice σ] : (s : Step) → CachedDevice σ → s.Answer × CachedDevice σ
  | .remote r, m =>
    let (x, d) := RemoteDevice.answer r m.device
    (x, { m with device := d })
  | .size s, m => (RemoteDevice.size m.device s, m)
  | .cache a, m =>
    let (x, c) := a.run m.cache
    (x, { m with cache := c })

def Program.run {σ α : Type} [RemoteDevice σ] (p : Program α) (m : CachedDevice σ) :
    α × CachedDevice σ :=
  p.interpret Step.run m

end RemoteMount
