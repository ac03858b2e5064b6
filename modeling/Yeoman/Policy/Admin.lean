import Yeoman.Policy.Engine

/-! The owner's commands that block and unblock one sender in a group. They edit the list of the
chat layer and store the document if it changed and is valid. -/
namespace Yeoman.Policy
open Library Table
open Processing (stripText)

inductive PolicyOutcome where
  | applied
  | noop
  | invalid
  | error
deriving DecidableEq

structure PolicyExecutionResult where
  outcome : PolicyOutcome
  message : String
  policy : PolicyConfig
deriving DecidableEq

/-- What the service is built with: the digest that detects a change, and the validation of a
candidate, which answers with an error text. -/
structure PolicyAdminService where
  policyHash : PolicyConfig → String
  validatePolicy : PolicyConfig → Option String

def parseGroupChatId (value : String) : Option String :=
  let chatId := stripText value
  if chatId.toList.contains ' ' || !("@g.us".toList.isSuffixOf chatId.toList) then none else some chatId

def senderKeys (senders : List String) : List String := (senders.map normalizeIdentityToken).filter (· ≠ "")

namespace PolicyConfig

def setBlocked (policy : PolicyConfig) (chatId : String) (senders : List String) : Option PolicyConfig :=
  (policy.channel? "whatsapp").map fun c =>
    let override := ((lookup Prod.fst chatId c.chats).map Prod.snd).getD {}
    let override := { override with blockedSenders := some ⟨some senders⟩ }
    let c := { c with chats := upsert Prod.fst (chatId, override) c.chats, distinct := c.distinct.upsert }
    { policy with
      channels := upsert Prod.fst ("whatsapp", c) policy.channels, distinct := policy.distinct.upsert }

def ownBlocked (policy : PolicyConfig) (chatId : String) : Option (List String) :=
  (policy.override? "whatsapp" chatId).bind ChatPolicyOverride.ownBlocked

def currentBlocked (policy : PolicyConfig) (chatId : String) : Except String (List String) :=
  match (policy.override? "whatsapp" chatId).bind ChatPolicyOverride.blockedSenders with
  | none => .ok []
  | some listed =>
    match listed.senders with
    | some senders => .ok senders
    | none => .error "\x27NoneType\x27 object is not iterable"

end PolicyConfig

namespace PolicyAdminService
variable (service : PolicyAdminService) (policy : PolicyConfig)

def commitPolicy (after : PolicyConfig) (commandName : String) (dryRun : Bool) : PolicyExecutionResult :=
  if service.policyHash policy = service.policyHash after then ⟨.noop,"No policy changes required.",policy⟩
  else
    match service.validatePolicy after with
    | some e => ⟨.error,"Failed to apply policy change: " ++ e,policy⟩
    | none =>
      if dryRun then ⟨.applied,"Dry-run: changes validated for " ++ commandName ++ ".",policy⟩
      else ⟨.applied,"Policy updated successfully.",after⟩

def editSender (commandName done : String) (edit : String → List String → List String) (argv : List String) (dryRun : Bool) :
    Except String PolicyExecutionResult :=
  match argv with
  | [chat, sender] =>
    match parseGroupChatId chat with
    | none =>
      .ok ⟨.invalid,"Invalid " ++ commandName ++
        " arguments: chat id must be a WhatsApp group id ending in @g.us",policy⟩
    | some chatId =>
      let sender := stripText sender
      if normalizeIdentityToken sender = "" then
        .ok ⟨.invalid,"Invalid " ++ commandName ++ " arguments: sender_id cannot be empty",policy⟩
      else
        match policy.currentBlocked chatId with
        | .error e => .error e
        | .ok current =>
          match policy.setBlocked chatId (edit sender current) with
          | none => .error "whatsapp channel is missing in policy"
          | some after =>
            let result := service.commitPolicy policy after commandName dryRun
            .ok (if result.outcome = .applied then
              { result with message := "Policy updated for " ++ chatId ++ ": " ++ done ++ " sender " ++ sender ++ "." }
            else result)
  | _ => .ok ⟨.invalid,"Usage: /policy " ++ commandName ++ " <chat_id@g.us> <sender_id>",policy⟩

def addBlocked (sender : String) (current : List String) : List String :=
  if normalizeIdentityToken sender ∈ senderKeys current then current else current ++ [sender]

def removeBlocked (sender : String) (current : List String) : List String :=
  current.filter fun value => normalizeIdentityToken value ≠ normalizeIdentityToken sender

def handleBlockSender (argv : List String) (dryRun : Bool) : Except String PolicyExecutionResult :=
  service.editSender policy "block-sender" "blocked" addBlocked argv dryRun

def handleUnblockSender (argv : List String) (dryRun : Bool) : Except String PolicyExecutionResult :=
  service.editSender policy "unblock-sender" "unblocked" removeBlocked argv dryRun

end PolicyAdminService
end Yeoman.Policy
