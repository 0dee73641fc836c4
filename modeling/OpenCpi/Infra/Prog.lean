/-!
# Programs that ask questions

A program that talks to the outside: it stops at each question and goes on with the answer. Others
may run in between, so a component whose calls wait for answers keeps the rest of its program in
its state. The rule for such programs is a postcondition that holds whatever the answers are, as
long as each answer is a good one for its question.
-/

namespace OpenCpi.Infra

inductive Prog (Q A α : Type) where
  | ret (a : α)
  | ask (q : Q) (k : A → Prog Q A α)

namespace Prog

variable {Q A α β : Type} {good : Q → A → Prop} {post : α → Prop}

protected def bind : Prog Q A α → (α → Prog Q A β) → Prog Q A β
  | ret a, f => f a
  | ask q k, f => ask q fun a => (k a).bind f

instance : Monad (Prog Q A) where
  pure := ret
  bind := Prog.bind

/-- `post` holds of what the program returns if all answers are good. -/
def Post (good : Q → A → Prop) (post : α → Prop) : Prog Q A α → Prop
  | ret a => post a
  | ask q k => ∀ a, good q a → Post good post (k a)

theorem post_pure {a : α} : Post good post (pure a : Prog Q A α) ↔ post a := Iff.rfl

/-- **The rule of sequence.** -/
theorem Post.bind {post' : β → Prop} {f : α → Prog Q A β} : ∀ {p : Prog Q A α},
    Post good post p → (∀ a, post a → Post good post' (f a)) → Post good post' (p >>= f)
  | ret a, h, hf => hf a h
  | ask _ k, h, hf => fun a ha => Post.bind (p := k a) (h a ha) hf

theorem Post.of_forall (hpost : ∀ a, post a) : ∀ p : Prog Q A α, Post good post p
  | ret a => hpost a
  | ask _ k => fun a _ => Post.of_forall hpost (k a)

end Prog

end OpenCpi.Infra
