import PrcyMiner.Basic
import PrcyMiner.Selection
import PrcyMiner.Rounds
import PrcyMiner.Template
import PrcyMiner.Contents
import PrcyMiner.Audit
import PrcyMiner.AuditRun
import PrcyMiner.Miner
import PrcyMiner.MinerLoop
import PrcyMiner.Submit
import PrcyMiner.Pool
