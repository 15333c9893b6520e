import Diachrony.Proofs.Application.Independence
import Diachrony.Proofs.Failure

/-!
# Words as a rule sees them

While a rule works on a form, the word that it looks at stays as it is: its segments are
those of the form before the rule, and its stress is worked out once.  So whatever is asked
of this word has one answer, from whatever inventories the work goes on, and in whatever
order the questions come.
-/
namespace Diachrony

def Inventories.AnyTwo (_ _ : Inventories) : Prop := True

namespace Work

variable {α β : Type}

/-- A session that gives the same, from whatever inventories it goes on. -/
abbrev IsSettled (session : Session α) : Prop :=
  AgreeOn Inventories.AnyTwo (· = ·) session session

theorem IsSettled.on_eq {session : Session α} (isSettled : session.IsSettled)
    (made : Inventories) : (session.on made).1 = session.result :=
  (isSettled made {} trivial).1.eq

theorem IsSettled.result_bind {session : Session α} {next : α → Session β}
    (first : session.IsSettled) (second : ∀ value, (next value).IsSettled) :
    (session >>= next).result = session.result >>= fun value => (next value).result :=
  AgreeOn.result_bind trivial (fun _ _ _ => trivial) first second

theorem IsSettled.result_bind_eq_ok {session : Session α} {next : α → Session β} {value : β}
    (first : session.IsSettled) (second : ∀ value, (next value).IsSettled) :
    (session >>= next).result = .ok value ↔
      ∃ given, session.result = .ok given ∧ (next given).result = .ok value := by
  rw [first.result_bind second]
  exact Except.bind_eq_ok

theorem IsSettled.result_bind_eq_error {session : Session α} {next : α → Session β}
    {failure : Error} (first : session.IsSettled) (second : ∀ value, (next value).IsSettled) :
    (session >>= next).result = .error failure ↔
      session.result = .error failure ∨
        ∃ given, session.result = .ok given ∧ (next given).result = .error failure := by
  rw [first.result_bind second]
  exact Except.bind_eq_error

/-- What only puts a value in another form fails as the value does. -/
theorem IsSettled.result_bind_pure_eq_error {session : Session α} {failure : Error}
    (isSettled : session.IsSettled) (change : α → β) :
    (session >>= fun value => pure (change value)).result = .error failure ↔
      session.result = .error failure := by
  rw [isSettled.result_bind_eq_error fun _ => agree_pure rfl]
  simp

theorem result_liftM_bind (result : Except Error α) (next : α → Session β) :
    ((liftM result : Session α) >>= next).result =
      result >>= fun value => (next value).result := by
  cases result <;> rfl

/-- What has been done already gives what it gave then. -/
theorem isSettled_done (run : Except Error α × Inventories) :
    IsSettled (ExceptT.mk fun _ => run : Session α) :=
  fun _ _ _ => ⟨.refl run.1, trivial⟩

end Work

abbrev Segmentation.IsSettled (word : Segmentation) : Prop :=
  Segmentation.Alike Inventories.AnyTwo word word

namespace Frame

open Work

variable (frame : Frame) (made : Inventories) (form : WordForm)

/-- The word that a rule sees of a form, when its work goes on from some inventories. -/
def wordSeen : Segmentation :=
  .ofText frame.inventory (bareText frame.marker form.text)
    (ExceptT.mk fun _ => (frame.stressedIndex form).on made)

theorem isSettled_wordSeen : (frame.wordSeen made form).IsSettled :=
  ⟨_, rfl, isSettled_done _⟩

variable {frame made form}

theorem on_segmentation_bind {α : Type} (ask : Segmentation → Session α) :
    (frame.segmentation form >>= ask).on made = (ask (frame.wordSeen made form)).on made :=
  rfl

/-- What is asked of the segments of a form is asked of the word that is seen. -/
theorem on_segmentation {α : Type} {ask : Segmentation → Session α}
    (isSettled : (ask (frame.wordSeen made form)).IsSettled) :
    ((frame.segmentation form >>= ask).on made).1 = (ask (frame.wordSeen made form)).result :=
  isSettled.on_eq made

end Frame

end Diachrony
