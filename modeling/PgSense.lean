import PgSense.Alerts.Routing
import PgSense.Commands.Reload
import PgSense.Pipeline.Destination
import PgSense.Alerts.Slack
import PgSense.Alerts.Accounting
import PgSense.Alerts.Jsonl
import PgSense.Commands.Shutdown
import PgSense.Commands.Supervision
import PgSense.Commands.Watch
import PgSense.Rules.ArrayCells
import PgSense.Rules.JsonCells
import PgSense.Rules.Boundaries
import PgSense.Rules.CheckedDetectors
import PgSense.Commands.Validate
import PgSense.PartialRows
import PgSense.Rules.Rescan
import PgSense.Rules.MaskedSamples
import PgSense.Rules.IbanNumbers
import PgSense.Rules.LuhnDigits
import PgSense.Alerts.DedupKeys
import PgSense.Alerts.Retries
import PgSense.Pipeline.Ids
import PgSense.Commands.Metrics
import PgSense.Commands.Progress
import PgSense.Alerts.DedupBounds
import PgSense.RuleSets
import PgSense.Commands.Startup
import PgSense.Commands.Secrecy
import PgSense.Commands.Alerting
import PgSense.Rules.EmailAddresses
import PgSense.Pipeline.SlackSends
import PgSense.Commands.Reported
import PgSense.Commands.SlackSends
import PgSense.Rules.MaskedScans
