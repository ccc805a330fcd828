import TuxBot.Irc.Wire

/-! What a Client answers to a CTCP. -/
namespace TuxBot.Irc

open TuxBot.Lua TuxBot.Lua.Pattern

/-- The texts of the user: `userversion` and `usersource` of the Client, `userinfo` of the identity. -/
structure CtcpTexts where
  userversion : Option Bytes
  usersource : Option Bytes
  userinfo : Option Bytes
  deriving DecidableEq

/-- The reply to CLIENTINFO about one command. -/
def clientinfoAbout (command : Bytes) : Bytes :=
  if command = lit "FINGER" then
    lit ":FINGER This command is not supported, and returns a message asking the user to try " ++
      lit "USERINFO instead."
  else if command = lit "VERSION" then
    lit ":VERSION get the name of this client. Since this client is a library, it has its own " ++
      lit "message, and users of the library can add their own text to be shown with it."
  else if command = lit "SOURCE" then
    lit ":SOURCE Get a link to the source code of this client. Since this client is a library, " ++
      lit "it has its own message, and users of the library can add their own text to be shown " ++
      lit "with it."
  else if command = lit "USERINFO" then
    lit ":USERINFO Return a string set by the user. If the user did not set a USERINFO string, " ++
      lit "an empty reply is returned."
  else if command = lit "ERRMSG" then
    lit ":ERRMSG Return the supplied string, plus a message saying there was no error."
  else if command = lit "PING" then lit ":PING Return the supplied string."
  else if command = lit "TIME" then lit ":TIME Return the system time and timezone of the client."
  else if command = lit "CLIENTINFO" then
    lit ":CLIENTINFO Get info about CTCP commands supported by this client. Try using CLIENTINFO " ++
      lit "with no argument for the full info."
  else lit ":\"" ++ command ++ lit "\": Unknown CTCP command"

/-- The reply to CLIENTINFO without an argument. -/
def clientinfoAll : Bytes :=
  lit ":To get info about a certain CTCP command, use \"CLIENTINFO <command>\". Note that this " ++
    lit "client does not support multiple extended messages or having both extended and normal " ++
    lit "data in the same PRIVMSG or NOTICE. Default known commands: FINGER VERSION SOURCE " ++
    lit "USERINFO CLIENTINFO ERRMSG PING TIME"

/-- The command and the argument of the reply, if there is one. `date` is what
`os.date('%A %Y-%m-%d %H:%M:%S %Z (%z)')` returns. -/
def ctcpReply (texts : CtcpTexts) (date command : Bytes) (arg : Option Bytes) :
    Option (Bytes × Option Bytes) :=
  if command = lit "FINGER" then
    some ("FINGER", some (lit ":FINGER is not supported, try USERINFO instead"))
  else if command = lit "VERSION" then
    some ("VERSION", some (match texts.userversion with
      | some text => lit ":" ++ text ++ lit " (using TuxBot lua IRC lib)"
      | none => lit ":TuxBot lua IRC lib"))
  else if command = lit "SOURCE" then
    some ("SOURCE", some (match texts.usersource with
      | some text => lit ":" ++ text ++ lit " (using ???)"
      | none => lit ":???"))
  else if command = lit "USERINFO" then
    some ("USERINFO", some (lit ":" ++ texts.userinfo.getD []))
  else if command = lit "ERRMSG" then
    some ("ERROR", some (arg.getD [] ++ lit " :No error has occured"))
  else if command = lit "PING" then some ("PONG", arg)
  else if command = lit "TIME" then some ("TIME", some (lit ":" ++ date))
  else if command = lit "CLIENTINFO" then
    some ("CLIENTINFO", some (match arg with
      | some about => clientinfoAbout about
      | none => clientinfoAll))
  else if command = lit "ACTION" then none
  else some ("ERROR", some (command ++ lit " :Unknown CTCP command"))

/-- The text of a CTCP or of a reply. -/
def ctcpText (command : Bytes) (arg : Option Bytes) : Bytes :=
  let argument := match arg with
    | some arg => lit " " ++ arg
    | none => []
  1 :: ctcpQuote (command ++ argument) ++ [1]

/-- The first capture of a pattern that begins with `(%w+)` begins with such a character. -/
theorem capture_alnum {p : List (Item UInt8)} {s : Bytes} {m : Match UInt8}
    (hp : ∀ cs x cs' rest, doMatch p cs x = some (cs', rest) → cs' = cs)
    (h : matchHere (.start :: .plus isAlnum :: .stop :: p) s = some m) :
    ∃ b cmd, m.captures.head? = some (b :: cmd) ∧ isAlnum b = true := by
  obtain ⟨⟨cs, rest⟩, hm, rfl⟩ := Option.map_eq_some_iff.mp h
  rw [doMatch_start] at hm
  cases s with
  | nil => simp [doMatch] at hm
  | cons b s =>
    by_cases hb : isAlnum b
    · rw [doMatch_plus hb] at hm
      obtain ⟨x, ⟨u, rfl⟩, hx⟩ := maxExpand_some hm
      rw [doMatch_stop, ← List.cons_append, endCapture_append] at hx
      obtain rfl := hp _ _ _ _ hx
      exact ⟨b, u, rfl, hb⟩
    · simp [doMatch, hb] at hm

theorem commandOf_alnum {remaining cmd : Bytes} (h : commandOf remaining = some cmd) :
    ∃ b s, cmd = b :: s ∧ isAlnum b = true := by
  obtain ⟨m, hm, hcmd⟩ := Option.bind_eq_some_iff.mp h
  have hcapture : ∃ b s, m.captures.head? = some (b :: s) ∧ isAlnum b = true := by
    rcases Option.or_eq_some_iff.mp hm with honly | ⟨-, hspace⟩
    · refine capture_alnum (p := [.eos]) ?_ honly
      intro cs x cs' rest hx
      cases x <;> simp_all [doMatch]
    · refine capture_alnum (p := [.one (oneOf " ")]) ?_ hspace
      intro cs x cs' rest hx
      cases x with
      | nil => simp [doMatch] at hx
      | cons d x =>
        by_cases hd : oneOf " " d <;> simp_all [doMatch]
  obtain ⟨b, s, hhead, hb⟩ := hcapture
  exact ⟨b, s, Option.some.inj (hcmd.symm.trans hhead), hb⟩

theorem rewriteCtcp_args {cmdtype : Bytes} {args : List Bytes} (hcmd : cmdtype ≠ lit ":CTCP")
    (h : (rewriteCtcp cmdtype args).1 = lit ":CTCP") :
    ∃ target command rest, (rewriteCtcp cmdtype args).2 = target :: command :: rest := by
  match args, h with
  | [], h => exact absurd h hcmd
  | [_], h => exact absurd h hcmd
  | target :: text :: rest, _ =>
    by_cases hctcp : (cmdtype = lit "PRIVMSG" ∨ cmdtype = lit "NOTICE") ∧
        (matchHere ctcpPattern text).isSome
    · rw [rewriteCtcp, if_pos hctcp]
      dsimp only
      generalize (matchHere ctcpArgPattern _).map Match.values = values
      rcases values with _ | _ | ⟨c, _ | ⟨a, _ | _⟩⟩ <;> exact ⟨_, _, _, rfl⟩
    · rw [rewriteCtcp, if_neg hctcp]
      exact ⟨_, _, _, rfl⟩

theorem toUpper_alnum : ∀ b, isAlnum b = true → toUpper b ≠ 58 := forall_byte (by decide +kernel)

/-- A CTCP has a command. -/
theorem ctcp_command {nick line : Bytes} {time : Int} {msg : Message}
    (h : messageLineToTable nick time line = some msg) (hcmd : msg.cmd = lit ":CTCP") :
    ∃ target command rest, msg.args = target :: command :: rest := by
  simp only [messageLineToTable] at h
  split at h
  · cases h
  · rename_i cmdtype hof
    obtain rfl := Option.some.inj h
    obtain ⟨b, s, rfl, hb⟩ := commandOf_alnum hof
    refine rewriteCtcp_args ?_ hcmd
    intro heq
    exact toUpper_alnum b hb (List.cons.inj heq).1

end TuxBot.Irc
