import Lc3.Trap.Handler

/-! # Recording handlers

A trap handler that changes neither registers nor memory, remembers with which vector and return
address it was called, and always ends with the same reply.
-/

namespace Lc3
set_option autoImplicit false

structure Recorder where
  /-- vector and R7 of every call, the first call first -/
  calls : Array (Byte × Word) := #[]
  reply : Reply := .ok .resume

instance : TrapHandler Recorder where
  invoke vector recorder s :=
    .ok
      { reply := recorder.reply
        server := { recorder with calls := recorder.calls.push (vector, s.regs.link) }
        state := s }

end Lc3
