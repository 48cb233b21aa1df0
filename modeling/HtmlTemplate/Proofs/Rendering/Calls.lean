import HtmlTemplate.Rendering.Session

/-!
# Calls on a response

What a callback can do to a response by itself, as data: the writes, which a halted
response ignores, and the calls that set the status or halt the response. There is no
call that takes output back, and none that undoes a halt.

Result: `frozen_apply`: a halted response stays halted, and its output stays as it is.
-/

namespace HtmlTemplate

namespace Response

/-- The calls on a response. -/
inductive Call where
  | write (text : String)
  | writeRaw (html : String)
  | writeBytes (bytes : ByteArray)
  | writeRawBytes (bytes : ByteArray)
  | addAttribute (key value : String)
  | addRawAttribute (key value : String)
  | addFlag (key : String)
  | setStatus (status : UInt16)
  | halt
  | redirect (status : UInt16) (target : String)
  | giveUp

/-- The response after a call. -/
def apply (r : Response) : Call → Response
  | .write text => r.write text
  | .writeRaw html => r.writeRaw html
  | .writeBytes bytes => r.writeBytes bytes
  | .writeRawBytes bytes => r.writeRawBytes bytes
  | .addAttribute key value => r.addAttribute key value
  | .addRawAttribute key value => r.addRawAttribute key value
  | .addFlag key => r.addFlag key
  | .setStatus status => r.setStatus status
  | .halt => r.halt
  | .redirect status target => r.redirect status target
  | .giveUp => r.giveUp

/-- If the first response is halted, then so is the second one, with the same output. -/
def Frozen (r r' : Response) : Prop :=
  r.halted = true → r'.halted = true ∧ r'.output = r.output

theorem Frozen.refl (r : Response) : r.Frozen r := fun h => ⟨h, rfl⟩

theorem Frozen.trans {r r' r'' : Response} (h : r.Frozen r') (h' : r'.Frozen r'') :
    r.Frozen r'' := fun hr =>
  have hr' := h hr
  have hr'' := h' hr'.1
  ⟨hr''.1, hr''.2.trans hr'.2⟩

theorem frozen_of_running {r r' : Response} (h : r.halted = false) : r.Frozen r' :=
  fun hr => by cases hr.symm.trans h

/-- A call neither undoes a halt nor changes the output of a halted response. -/
theorem frozen_apply (r : Response) (call : Call) : r.Frozen (r.apply call) := by
  intro h
  cases call <;>
    simp [apply, write, writeRaw, writeBytes, writeRawBytes, addAttribute, addRawAttribute,
      addFlag, writeKey, setStatus, halt, redirect, giveUp, h]

end Response

/-- Makes a call on the response. -/
def Render.respond {ω : Type} (call : Response.Call) : Render ω Unit :=
  Render.modifyResponse (·.apply call)

/-- Reads the response and the world, and changes the world. -/
def Render.inspect {ω α : Type} (f : Response → ω → α × ω) : Render ω α := fun s =>
  let (a, world) := f s.response s.world
  .ok (a, { s with world := world })

end HtmlTemplate
